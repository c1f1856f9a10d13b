import PaxosKVStore.Solo

/-!
# The reference of `RunPaxos`

What one invocation does when no other one runs beside it, without its loops.
`Reference` reads everything off the servers before the invocation and off
what becomes of its calls: who is live, who promises and who accepts, which
operation is proposed, and what each server shows afterwards.

`Affected` is what a call, a loop or the whole invocation does to one server.
It speaks of one slot only, so it is the frame condition as well.  The loops
compose by `Affected.trans`, and `runPaxos_reference` is the result.
-/

namespace PaxosKVStore

/-! ## What happens to a server -/

/-- The log after `accepted` was written into it. -/
def PaxosLog.after (log : PaxosLog) : Option AcceptResponse → PaxosLog
  | some acceptance => log.accept acceptance
  | none => log

/-- The value of a key after `executed` was executed on it. -/
def valueAfter (before : Option String) : Option Operation → Option String
  | some op => op.effect before
  | none => before

/-- The coordinator after `executed` was executed. -/
def PaxosStubsMap.coordinatorAfter (map : PaxosStubsMap) : Option Operation → Addr
  | some op =>
      if op.type = .setCoordinator ∧ op.value ∈ map.stubs.addrs then op.value
      else map.coordinator
  | none => map.coordinator

/-- Between `s` and `s'` the slot of `key` and `r` was logged if `logged` holds,
`accepted` was written into its log and `executed` was executed.  Nothing else
is different. -/
structure Affected (key : String) (r : Int) (s s' : MultiPaxosServiceImpl) (logged : Prop)
    (accepted : Option AcceptResponse) (executed : Option Operation) : Prop where
  address : s'.myPaxosAddress = s.myPaxosAddress
  stubs : s'.paxosStubsMap.stubs = s.paxosStubsMap.stubs
  rounds : ∀ key' r', r' ∈ s'.kvDb.rounds key' ↔
    (logged ∧ key' = key ∧ r' = r) ∨ r' ∈ s.kvDb.rounds key'
  log : ∀ key' r', s'.kvDb.paxosLog key' r' =
    if key' = key ∧ r' = r then (s.kvDb.paxosLog key' r').after accepted
    else s.kvDb.paxosLog key' r'
  value : ∀ key', s'.kvDb.getValue key' =
    if key' = key then valueAfter (s.kvDb.getValue key') executed else s.kvDb.getValue key'
  coordinator : s'.paxosStubsMap.coordinator = s.paxosStubsMap.coordinatorAfter executed

namespace Affected

variable {key : String} {r : Int} {s s' s'' : MultiPaxosServiceImpl} {logged logged' : Prop}
  {accepted accepted' : Option AcceptResponse} {executed : Option Operation}

/-- Two calls of which only the second executes. -/
theorem trans (h : Affected key r s s' logged accepted none)
    (h' : Affected key r s' s'' logged' accepted' executed) :
    Affected key r s s'' (logged ∨ logged') (accepted'.or accepted) executed where
  address := h'.address.trans h.address
  stubs := h'.stubs.trans h.stubs
  rounds key' r' := by
    rw [h'.rounds, h.rounds]
    tauto
  log key' r' := by
    rw [h'.log, h.log]
    split
    · cases accepted' with
      | none => rfl
      | some acceptance' => cases accepted <;> rfl
    · rfl
  value key' := by
    have hsame : s'.kvDb.getValue key' = s.kvDb.getValue key' := by
      rw [h.value]
      exact ite_self _
    rw [h'.value, hsame]
  coordinator := by
    rw [h'.coordinator]
    cases executed with
    | none => exact h.coordinator
    | some op =>
      show (if op.type = .setCoordinator ∧ op.value ∈ s'.paxosStubsMap.stubs.addrs then op.value
        else s'.paxosStubsMap.coordinator) = _
      rw [h.stubs, h.coordinator]
      rfl

/-- A server of which nothing shows a difference. -/
theorem of_unchanged (h : Unchanged s s') : Affected key r s s' False none none where
  address := h.address
  stubs := h.stubs
  rounds key' r' := by
    rw [h.mem_rounds]
    simp
  log key' r' := (h.log key' r').trans (ite_self _).symm
  value key' := (h.value key').trans (ite_self _).symm
  coordinator := h.coordinator

/-- A call about the slot. -/
theorem of_handled {msg : Message} {reply : Reply} (h : Handled s s' msg reply)
    (hlogged : msg.logged reply = some (key, r))
    (haccepted : ∀ written, msg.recorded reply = some written →
      written.key = key ∧ written.acceptance.round = r)
    (hexecuted : ∀ key' op, msg.executed reply = some (key', op) → key' = key) :
    Affected key r s s' True ((msg.recorded reply).map InformRequest.acceptance)
      ((msg.executed reply).map Prod.snd) where
  address := h.address
  stubs := h.stubs
  rounds key' r' := by
    rw [h.rounds, hlogged, Option.some.injEq, Prod.mk.injEq, true_and, eq_comm, @eq_comm _ r]
  log key' r' := by
    rw [h.log]
    cases hrecorded : msg.recorded reply with
    | none => exact (ite_self _).symm
    | some written =>
      obtain ⟨rfl, rfl⟩ := haccepted written hrecorded
      rfl
  value key' := by
    rw [h.value]
    cases hexec : msg.executed reply with
    | none => exact (ite_self _).symm
    | some executed =>
      obtain ⟨key'', op⟩ := executed
      obtain rfl := hexecuted key'' op hexec
      rfl
  coordinator := by
    rw [h.coordinator]
    cases msg.executed reply <;> rfl

/-- A server that executed nothing has its data map and its coordinator. -/
theorem dataMap_eq (h : Affected key r s s' logged accepted none) :
    s'.kvDb.dataMap = s.kvDb.dataMap ∧
      s'.paxosStubsMap.coordinator = s.paxosStubsMap.coordinator := by
  refine ⟨KeyValueDataBase.dataMap_ext fun key' => ?_, h.coordinator⟩
  rw [h.value]
  exact ite_self _

theorem congr {logged₁ : Prop} {accepted₁ : Option AcceptResponse}
    {executed₁ : Option Operation} (h : Affected key r s s' logged accepted executed)
    (hlogged : logged ↔ logged₁) (haccepted : accepted = accepted₁)
    (hexecuted : executed = executed₁) : Affected key r s s' logged₁ accepted₁ executed₁ := by
  subst haccepted hexecuted
  rwa [← propext hlogged]

end Affected

/-! ## The reference -/

namespace Reference

open Solo (live round prepareMsg)
open MultiPaxosServiceImpl (Rejects)

section Values

variable (o : Outcomes) (servers : Servers) (server : Addr) (request : Request)

/-- What a replica has logged for the slot of the invocation. -/
def log (a : Addr) : PaxosLog :=
  (servers a).kvDb.paxosLog request.key (round servers server request)

/-- The replica promises, and the promise arrives. -/
def Promises (a : Addr) : Prop :=
  o.fate (prepareMsg servers server request) a = .delivered ∧
    (log servers server request a).promisedId < 1 ∧
    ¬ Rejects request.key (o.randomFail (prepareMsg servers server request) a)

instance (a : Addr) : Decidable (Promises o servers server request a) :=
  inferInstanceAs (Decidable (_ ∧ _))

/-- The live replicas whose promises arrive, in address order. -/
def voters : List Addr :=
  (live o servers server).filter fun a => Promises o servers server request a

/-- The first of them with the highest positive accepted id. -/
def adopted : Option Addr :=
  (voters o servers server request).find? fun a =>
    0 < (log servers server request a).acceptedId ∧
      ∀ b ∈ voters o servers server request,
        (log servers server request b).acceptedId ≤ (log servers server request a).acceptedId

/-- The operation that is proposed and informed. -/
def proposal : Operation :=
  match adopted o servers server request with
  | some a => (log servers server request a).operation
  | none => request.setProposeValue

def acceptance : AcceptResponse :=
  { round := round servers server request
    proposeId := 1
    type := (proposal o servers server request).type
    value := (proposal o servers server request).value }

def proposeMsg : Message :=
  .propose
    { key := request.key
      round := round servers server request
      proposeId := 1
      type := (proposal o servers server request).type
      value := (proposal o servers server request).value }

def informMsg : Message :=
  .inform { key := request.key, acceptance := acceptance o servers server request }

/-- The replica accepts the proposal if it gets it. -/
def Accepts (a : Addr) : Prop :=
  (log servers server request a).promisedId ≤ 1 ∧
    ¬ Rejects request.key (o.randomFail (proposeMsg o servers server request) a)

instance (a : Addr) : Decidable (Accepts o servers server request a) :=
  inferInstanceAs (Decidable (_ ∧ _))

/-- The live replicas whose acceptances arrive. -/
def acceptors : List Addr :=
  (live o servers server).filter fun a =>
    o.fate (proposeMsg o servers server request) a = .delivered ∧
      Accepts o servers server request a

/-- More than half of the live replicas have promised. -/
def Quorum : Prop :=
  (live o servers server).length < 2 * (voters o servers server request).length

/-- And more than half of them have accepted. -/
def Consensus : Prop :=
  Quorum o servers server request ∧
    (live o servers server).length < 2 * (acceptors o servers server request).length

instance : Decidable (Quorum o servers server request) := inferInstanceAs (Decidable (_ < _))

instance : Decidable (Consensus o servers server request) :=
  inferInstanceAs (Decidable (_ ∧ _))

/-- A live replica handles the message. -/
def Reached (msg : Message) (a : Addr) : Prop :=
  a ∈ live o servers server ∧ o.fate msg a ≠ .lost

instance (msg : Message) (a : Addr) : Decidable (Reached o servers server msg a) :=
  inferInstanceAs (Decidable (_ ∧ _))

/-- The replica logs the slot. -/
def Logs (a : Addr) : Prop :=
  Reached o servers server (prepareMsg servers server request) a ∨
    (Quorum o servers server request ∧
      Reached o servers server (proposeMsg o servers server request) a) ∨
    (Consensus o servers server request ∧
      Reached o servers server (informMsg o servers server request) a)

/-- What is written into its log. -/
def accepted (a : Addr) : Option AcceptResponse :=
  if (Consensus o servers server request ∧
      Reached o servers server (informMsg o servers server request) a) ∨
    (Quorum o servers server request ∧
      Reached o servers server (proposeMsg o servers server request) a ∧
      Accepts o servers server request a)
  then some (acceptance o servers server request) else none

/-- What it executes.  An `Inform` is refused when a higher round is logged. -/
def executed (a : Addr) : Option Operation :=
  if (Consensus o servers server request ∧
      Reached o servers server (informMsg o servers server request) a) ∧
    ¬ (servers a).kvDb.Supersedes request.key (round servers server request)
  then some (proposal o servers server request) else none

end Values

/-! ## The values that the loops find -/

section Loops

variable {o : Outcomes} {servers : Servers} {server : Addr} {request : Request}

/-- What a promise of the replica says. -/
def response (servers : Servers) (server : Addr) (request : Request) (a : Addr) :
    PromiseResponse :=
  if 0 < (log servers server request a).acceptedId then
    { round := round servers server request
      proposeId := 1
      acceptedId := (log servers server request a).acceptedId
      type := (log servers server request a).acceptedType
      value := (log servers server request a).acceptedValue }
  else { round := round servers server request, proposeId := 1 }

theorem log_entered (a : Addr) :
    (entered servers server request a).kvDb.paxosLog request.key (round servers server request) =
      log servers server request a :=
  (Solo.entered_unchanged servers server request a).log request.key _

/-- The promise of a replica in terms of its log. -/
theorem promiseOf_eq (a : Addr) :
    Solo.promiseOf o servers server request a =
      if Promises o servers server request a then some (response servers server request a)
      else none := by
  have hok := (entered servers server request a).prepare_ok_iff
    (o.randomFail (prepareMsg servers server request) a)
    { key := request.key, round := round servers server request, proposeId := 1 }
  have hresponse := (entered servers server request a).prepare_response
    (o.randomFail (prepareMsg servers server request) a)
    { key := request.key, round := round servers server request, proposeId := 1 }
  rw [log_entered] at hok hresponse
  unfold Solo.promiseOf Outcomes.exchange
  cases hfate : o.fate (prepareMsg servers server request) a with
  | delivered =>
    show ((entered servers server request a).handle {}
      (o.randomFail (prepareMsg servers server request) a)
      (.prepare { key := request.key, round := round servers server request, proposeId := 1 })
      ).1.promise = _
    rw [Solo.promise_handle]
    by_cases hpromises : Promises o servers server request a
    · rw [if_pos hpromises, if_pos (hok.mpr hpromises.2), hresponse (hok.mpr hpromises.2)]
      rfl
    · rw [if_neg hpromises, if_neg fun h => hpromises ⟨hfate, hok.mp h⟩]
  | lost => exact (if_neg fun h => by rw [Promises, hfate] at h; cases h.1).symm
  | replyLost => exact (if_neg fun h => by rw [Promises, hfate] at h; cases h.1).symm

theorem promises_eq : Solo.promises o servers server request =
    (voters o servers server request).map (response servers server request) := by
  rw [Solo.promises, voters]
  induction live o servers server with
  | nil => rfl
  | cons a rest ih =>
    rw [List.filterMap_cons, promiseOf_eq, List.filter_cons]
    by_cases hpromises : Promises o servers server request a
    · simp only [hpromises, if_true, decide_true, List.map_cons]
      rw [ih]
    · simp only [hpromises, if_false, decide_false]
      exact ih

variable (servers server request) in
theorem acceptedId_response (a : Addr) :
    (response servers server request a).acceptedId =
      if 0 < (log servers server request a).acceptedId then
        (log servers server request a).acceptedId else 0 := by
  unfold response
  split <;> rfl

/-- The first entry with the highest positive rank. -/
def FirstHighest (rank : Addr → Int) (l : List Addr) (a : Addr) : Prop :=
  0 < rank a ∧ ∃ before after, l = before ++ a :: after ∧
    (∀ b ∈ before, rank b < rank a) ∧ ∀ b ∈ after, rank b ≤ rank a

section FirstHighest

variable {rank : Addr → Int} {l : List Addr} {a b : Addr}

theorem FirstHighest.rank_le (h : FirstHighest rank l a) : ∀ b ∈ l, rank b ≤ rank a := by
  obtain ⟨_, before, after, rfl, hbefore, hafter⟩ := h
  intro b hb
  rcases List.mem_append.mp hb with hb | hb
  · exact le_of_lt (hbefore b hb)
  · rcases List.mem_cons.mp hb with rfl | hb
    · exact le_refl _
    · exact hafter b hb

theorem firstHighest_snoc (hpos : 0 < rank b) (hlt : ∀ a ∈ l, rank a < rank b) :
    FirstHighest rank (l ++ [b]) b :=
  ⟨hpos, l, [], rfl, hlt, fun _ h => by cases h⟩

theorem FirstHighest.snoc (h : FirstHighest rank l a) (hle : rank b ≤ rank a) :
    FirstHighest rank (l ++ [b]) a := by
  obtain ⟨hpos, before, after, rfl, hbefore, hafter⟩ := h
  refine ⟨hpos, before, after ++ [b], by simp, hbefore, fun c hc => ?_⟩
  rcases List.mem_append.mp hc with hc | hc
  · exact hafter c hc
  · rw [List.mem_singleton.mp hc]
    exact hle

theorem FirstHighest.find (h : FirstHighest rank l a) :
    l.find? (fun a => 0 < rank a ∧ ∀ b ∈ l, rank b ≤ rank a) = some a := by
  have hhighest := h.rank_le
  obtain ⟨hpos, before, after, hl, hbefore, _⟩ := h
  refine List.find?_eq_some_iff_append.mpr
    ⟨decide_eq_true ⟨hpos, hhighest⟩, before, after, hl, fun b hb => ?_⟩
  rw [Bool.not_eq_true', decide_eq_false_iff_not]
  intro hb'
  have hle := hb'.2 a (by rw [hl]; exact List.mem_append_right _ List.mem_cons_self)
  exact absurd (hbefore b hb) (not_lt.mpr hle)

end FirstHighest

variable (servers server request) in
/-- Keeping the higher promise finds the first one with the highest positive
accepted id. -/
theorem foldl_higher_cases (l : List Addr) :
    (∀ a ∈ l, (log servers server request a).acceptedId ≤ 0) ∧
        (l.map (response servers server request)).foldl Solo.higher {} = {} ∨
      ∃ a, FirstHighest (fun a => (log servers server request a).acceptedId) l a ∧
        (l.map (response servers server request)).foldl Solo.higher {} =
          response servers server request a := by
  induction l using List.reverseRecOn with
  | nil => exact Or.inl ⟨fun a ha => absurd ha List.not_mem_nil, rfl⟩
  | append_singleton l b ih =>
    rw [List.map_append, List.foldl_append, List.map_singleton, List.foldl_cons, List.foldl_nil]
    have hid := acceptedId_response servers server request
    rcases ih with ⟨hnone, hfold⟩ | ⟨a, hfirst, hfold⟩
    · rw [hfold, Solo.higher, hid]
      by_cases hpos : 0 < (log servers server request b).acceptedId
      · rw [if_pos hpos, if_pos (show ({} : PromiseResponse).acceptedId < _ from hpos)]
        exact Or.inr ⟨b, firstHighest_snoc hpos fun a ha => (hnone a ha).trans_lt hpos, rfl⟩
      · rw [if_neg hpos, if_neg (lt_irrefl _)]
        refine Or.inl ⟨fun a ha => ?_, rfl⟩
        rcases List.mem_append.mp ha with ha | ha
        · exact hnone a ha
        · rw [List.mem_singleton.mp ha]
          exact not_lt.mp hpos
    · rw [hfold, Solo.higher, hid a, if_pos hfirst.1]
      by_cases hlt : (log servers server request a).acceptedId <
          (log servers server request b).acceptedId
      · have hpos : 0 < (log servers server request b).acceptedId := hfirst.1.trans hlt
        rw [hid b, if_pos hpos, if_pos hlt]
        exact Or.inr ⟨b, firstHighest_snoc hpos fun c hc => (hfirst.rank_le c hc).trans_lt hlt,
          rfl⟩
      · have hle : (response servers server request b).acceptedId ≤
            (log servers server request a).acceptedId := by
          rw [hid b]
          split
          · exact not_lt.mp hlt
          · exact le_of_lt hfirst.1
        rw [if_neg (not_lt.mpr hle)]
        exact Or.inr ⟨a, hfirst.snoc (not_lt.mp hlt), rfl⟩

/-- The loops propose the operation of the reference. -/
theorem proposal_eq :
    Solo.proposal o servers server request = proposal o servers server request := by
  rw [Solo.proposal, Solo.bestPromise, promises_eq, proposal]
  rcases foldl_higher_cases servers server request (voters o servers server request) with ⟨hnone, hfold⟩ | ⟨a, hfirst, hfold⟩
  · have hadopted : adopted o servers server request = none := by
      refine List.find?_eq_none.mpr fun a ha => ?_
      rw [decide_eq_true_eq, not_and]
      exact fun hpos => absurd hpos (not_lt.mpr (hnone a ha))
    rw [hfold, hadopted]
    rfl
  · have hadopted : adopted o servers server request = some a := hfirst.find
    have hresponse : response servers server request a =
        { round := round servers server request
          proposeId := 1
          acceptedId := (log servers server request a).acceptedId
          type := (log servers server request a).acceptedType
          value := (log servers server request a).acceptedValue } := if_pos hfirst.1
    rw [hfold, hadopted, hresponse]
    exact if_pos hfirst.1

theorem proposeMsg_eq :
    Solo.proposeMsg o servers server request = proposeMsg o servers server request := by
  rw [Solo.proposeMsg, proposal_eq]
  rfl

theorem informMsg_eq :
    Message.inform (Solo.informReq o servers server request) =
      informMsg o servers server request := by
  rw [Solo.informReq, proposal_eq]
  rfl

theorem exchange_of_not_lost {msg : Message} {a : Addr} (h : o.fate msg a ≠ .lost)
    (s : MultiPaxosServiceImpl) :
    (o.exchange msg a s).2 = (s.handle {} (o.randomFail msg a) msg).2 := by
  unfold Outcomes.exchange
  cases hfate : o.fate msg a with
  | lost => exact absurd hfate h
  | _ => rfl

theorem exchange_of_lost {msg : Message} {a : Addr} (h : o.fate msg a = .lost)
    (s : MultiPaxosServiceImpl) : (o.exchange msg a s).2 = s := by
  unfold Outcomes.exchange
  rw [h]

variable (o servers server request) in
/-- What one loop does to a server. -/
theorem affected_of_visited {msg : Message}
    (hslot : msg.slot = some (request.key, round servers server request)) (s : Servers)
    (a : Addr) {reply : Reply} (hreply : ((s a).handle {} (o.randomFail msg a) msg).1 = reply) :
    Affected request.key (round servers server request) (s a)
      (visited (o.exchange msg) (live o servers server) s a) (Reached o servers server msg a)
      (if Reached o servers server msg a then
        (msg.recorded reply).map InformRequest.acceptance else none)
      (if Reached o servers server msg a then (msg.executed reply).map Prod.snd else none) := by
  by_cases hreached : Reached o servers server msg a
  · have hhandled := (s a).handle_handled (o.randomFail msg a) {} msg
    have hlogged := (s a).handle_logged (o.randomFail msg a) msg
    rw [hreply] at hhandled hlogged
    rw [if_pos hreached, if_pos hreached, visited_of_mem hreached.1,
      exchange_of_not_lost hreached.2]
    refine (Affected.of_handled hhandled (hlogged.trans hslot) ?_ ?_).congr
      (iff_of_true trivial hreached) rfl rfl
    · intro written hwritten
      have hat := (Message.slot_of_recorded hwritten).symm.trans hslot
      rw [Option.some.injEq, Prod.mk.injEq] at hat
      exact hat
    · intro key op hexecuted
      obtain ⟨r, hr⟩ := Message.slot_of_executed hexecuted
      exact congrArg Prod.fst (Option.some.inj (hr.symm.trans hslot))
  · have hsame : visited (o.exchange msg) (live o servers server) s a = s a := by
      by_cases ha : a ∈ live o servers server
      · rw [visited_of_mem ha]
        exact exchange_of_lost (not_not.mp fun hfate => hreached ⟨ha, hfate⟩) (s a)
      · exact visited_of_notMem ha
    rw [if_neg hreached, if_neg hreached, hsame]
    exact (Affected.of_unchanged (.refl _)).congr (iff_of_false id hreached) rfl rfl

/-- After the prepare loop. -/
theorem affected_prepared (a : Addr) :
    Affected request.key (round servers server request) (servers a)
      (Solo.prepared o servers server request a)
      (Reached o servers server (prepareMsg servers server request) a) none none := by
  have hentered : Affected request.key (round servers server request) (servers a)
      (entered servers server request a) False none none :=
    .of_unchanged (Solo.entered_unchanged servers server request a)
  exact (hentered.trans (affected_of_visited o servers server request rfl
    (entered servers server request) a rfl)).congr
    (iff_of_eq (false_or _)) (Option.or_none.trans (ite_self _)) (ite_self _)

variable (o servers server request) in
/-- A replica that gets the proposal answers as the reference says. -/
theorem propose_ok (a : Addr) :
    ((Solo.prepared o servers server request a).handle {}
      (o.randomFail (proposeMsg o servers server request) a)
      (proposeMsg o servers server request)).1.status.ok = true ↔
      Accepts o servers server request a := by
  have hlog : (Solo.prepared o servers server request a).kvDb.paxosLog request.key
      (round servers server request) = log servers server request a := by
    rw [(affected_prepared a).log]
    exact ite_self _
  have hok := (Solo.prepared o servers server request a).propose_ok_iff
    (o.randomFail (proposeMsg o servers server request) a)
    { key := request.key
      round := round servers server request
      proposeId := 1
      type := (proposal o servers server request).type
      value := (proposal o servers server request).value }
  rw [hlog] at hok
  exact hok

variable (o servers server request) in
/-- After the propose loop. -/
theorem affected_proposed (a : Addr) :
    Affected request.key (round servers server request) (servers a)
      (Solo.proposed o servers server request a)
      (Reached o servers server (prepareMsg servers server request) a ∨
        Reached o servers server (proposeMsg o servers server request) a)
      (if Reached o servers server (proposeMsg o servers server request) a ∧
          Accepts o servers server request a
        then some (acceptance o servers server request) else none) none := by
  have hok := propose_ok o servers server request a
  have hslot : (proposeMsg o servers server request).slot =
      some (request.key, round servers server request) := rfl
  have hvisited := affected_of_visited o servers server request hslot
    (Solo.prepared o servers server request) a rfl
  rw [Solo.proposed, proposeMsg_eq]
  refine ((affected_prepared a).trans hvisited).congr Iff.rfl ?_ (ite_self _)
  rw [Option.or_none]
  by_cases hreached : Reached o servers server (proposeMsg o servers server request) a
  · rw [if_pos hreached]
    by_cases haccepts : Accepts o servers server request a
    · rw [if_pos ⟨hreached, haccepts⟩]
      exact congrArg (Option.map InformRequest.acceptance) (if_pos (hok.mpr haccepts))
    · rw [if_neg fun h => haccepts h.2]
      exact congrArg (Option.map InformRequest.acceptance)
        (if_neg fun h => haccepts (hok.mp h))
  · rw [if_neg hreached, if_neg fun h => hreached h.1]

/-- After the inform loop. -/
theorem affected_informed (a : Addr) :
    Affected request.key (round servers server request) (servers a)
      (Solo.informed o servers server request a)
      ((Reached o servers server (prepareMsg servers server request) a ∨
        Reached o servers server (proposeMsg o servers server request) a) ∨
        Reached o servers server (informMsg o servers server request) a)
      (if Reached o servers server (informMsg o servers server request) a ∨
          (Reached o servers server (proposeMsg o servers server request) a ∧
            Accepts o servers server request a)
        then some (acceptance o servers server request) else none)
      (if Reached o servers server (informMsg o servers server request) a ∧
          ¬ (servers a).kvDb.Supersedes request.key (round servers server request)
        then some (proposal o servers server request) else none) := by
  have hproposed := affected_proposed o servers server request a
  have hsuper : (Solo.proposed o servers server request a).kvDb.Supersedes request.key
      (round servers server request) ↔
      (servers a).kvDb.Supersedes request.key (round servers server request) := by
    refine KeyValueDataBase.supersedes_congr fun r hlt => ?_
    rw [hproposed.rounds]
    exact or_iff_right fun h => ne_of_gt hlt h.2.2
  have hok := (Solo.proposed o servers server request a).inform_ok_iff
    { key := request.key, acceptance := acceptance o servers server request }
  have hnot := (Solo.proposed o servers server request a).inform_not_cancelled
    { key := request.key, acceptance := acceptance o servers server request }
  rw [show (acceptance o servers server request).round = round servers server request from rfl,
    hsuper] at hok
  have hslot : (informMsg o servers server request).slot =
      some (request.key, round servers server request) := rfl
  have hvisited := affected_of_visited o servers server request hslot
    (Solo.proposed o servers server request) a rfl
  rw [Solo.informed, informMsg_eq]
  refine (hproposed.trans hvisited).congr Iff.rfl ?_ ?_
  · by_cases hreached : Reached o servers server (informMsg o servers server request) a
    · rw [if_pos hreached, if_pos (Or.inl hreached)]
      have hrecorded : (informMsg o servers server request).recorded
          ((Solo.proposed o servers server request a).handle {}
            (o.randomFail (informMsg o servers server request) a)
            (informMsg o servers server request)).1 =
          some { key := request.key, acceptance := acceptance o servers server request } :=
        if_neg hnot
      rw [hrecorded]
      rfl
    · rw [if_neg hreached, Option.none_or]
      exact if_congr (or_iff_right hreached).symm rfl rfl
  · by_cases hreached : Reached o servers server (informMsg o servers server request) a
    · rw [if_pos hreached]
      by_cases hsuperseded :
          (servers a).kvDb.Supersedes request.key (round servers server request)
      · rw [if_neg fun h => h.2 hsuperseded]
        exact congrArg (Option.map Prod.snd) (if_neg fun h => hok.mp h hsuperseded)
      · rw [if_pos ⟨hreached, hsuperseded⟩]
        exact congrArg (Option.map Prod.snd) (if_pos (hok.mpr hsuperseded))
    · rw [if_neg hreached, if_neg fun h => hreached h.1]

theorem accepts_eq (a : Addr) : Solo.accepts o servers server request a =
    decide (o.fate (proposeMsg o servers server request) a = .delivered ∧
      Accepts o servers server request a) := by
  rw [Bool.eq_iff_iff, decide_eq_true_iff, Solo.accepts, proposeMsg_eq, Outcomes.exchange]
  cases hfate : o.fate (proposeMsg o servers server request) a with
  | delivered => exact (propose_ok o servers server request a).trans (and_iff_right rfl).symm
  | _ => simp

theorem acceptors_eq :
    Solo.acceptors o servers server request = acceptors o servers server request :=
  List.filter_congr fun a _ => accepts_eq a

theorem quorum_iff : Quorum o servers server request ↔
    (live o servers server).length / 2 < (Solo.promises o servers server request).length := by
  rw [Quorum, promises_eq, List.length_map]
  omega

theorem consensus_iff : Consensus o servers server request ↔
    Quorum o servers server request ∧
      (live o servers server).length / 2 < (Solo.acceptors o servers server request).length := by
  rw [Consensus, acceptors_eq]
  refine and_congr_right fun _ => ?_
  omega

/-- The first test is implied by the second one. -/
theorem live_ne_nil (h : Quorum o servers server request) : live o servers server ≠ [] := by
  intro hnil
  have hle : (voters o servers server request).length ≤ (live o servers server).length :=
    List.length_filter_le _ _
  rw [Quorum, hnil] at h
  rw [hnil] at hle
  simp only [List.length_nil] at h hle
  omega

/-- OK is what `Consensus` says. -/
theorem ok_iff : (runPaxos o servers server request).1.ok = true ↔
    live o servers server ≠ [] ∧ Consensus o servers server request := by
  have hcases := Solo.runPaxos_cases o servers server request
  generalize runPaxos o servers server request = result at hcases
  cases hcases with
  | noneLive message hlive => exact iff_of_false Bool.false_ne_true fun h => h.1 hlive
  | failedQuorum message hlive hcount =>
    exact iff_of_false Bool.false_ne_true fun h =>
      absurd (quorum_iff.mp h.2.1) (not_lt.mpr hcount)
  | failedConsensus message hcount hcount' =>
    exact iff_of_false Bool.false_ne_true fun h =>
      absurd (consensus_iff.mp h.2).2 (not_lt.mpr hcount')
  | done hcount hcount' =>
    have hquorum : Quorum o servers server request := quorum_iff.mpr hcount
    exact iff_of_true rfl ⟨live_ne_nil hquorum, consensus_iff.mpr ⟨hquorum, hcount'⟩⟩

/-- Whatever is not OK is ABORTED. -/
theorem code_of_not_ok (h : (runPaxos o servers server request).1.ok = false) :
    (runPaxos o servers server request).1.code = .aborted := by
  have hcases := Solo.runPaxos_cases o servers server request
  generalize runPaxos o servers server request = result at h hcases
  cases hcases with
  | done hcount hcount' => cases h
  | _ => rfl

variable (o servers server request) in
/-- What the invocation does to a server. -/
theorem affected_runPaxos (a : Addr) :
    Affected request.key (round servers server request) (servers a)
      ((runPaxos o servers server request).2 a) (Logs o servers server request a)
      (accepted o servers server request a) (executed o servers server request a) := by
  have hcases := Solo.runPaxos_cases o servers server request
  generalize runPaxos o servers server request = result at hcases
  unfold Logs accepted executed
  cases hcases with
  | noneLive message hlive =>
    have hreached : ∀ msg, ¬ Reached o servers server msg a := by
      rintro msg ⟨ha, _⟩
      rw [hlive] at ha
      cases ha
    simp only [hreached, and_false, false_and, or_false, if_false]
    exact .of_unchanged (Solo.entered_unchanged servers server request a)
  | failedQuorum message hlive hcount =>
    have hquorum : ¬ Quorum o servers server request :=
      fun h => absurd (quorum_iff.mp h) (not_lt.mpr hcount)
    have hconsensus : ¬ Consensus o servers server request := fun h => hquorum h.1
    simp only [hquorum, hconsensus, false_and, or_false, if_false]
    exact affected_prepared a
  | failedConsensus message hcount hcount' =>
    have hquorum : Quorum o servers server request := quorum_iff.mpr hcount
    have hconsensus : ¬ Consensus o servers server request :=
      fun h => absurd (consensus_iff.mp h).2 (not_lt.mpr hcount')
    simp only [hquorum, hconsensus, true_and, false_and, or_false, false_or, if_false]
    exact affected_proposed o servers server request a
  | done hcount hcount' =>
    have hquorum : Quorum o servers server request := quorum_iff.mpr hcount
    have hconsensus : Consensus o servers server request :=
      consensus_iff.mpr ⟨hquorum, hcount'⟩
    simp only [hquorum, hconsensus, true_and, ← or_assoc]
    exact affected_informed a

end Loops

/-! ## The messages that it sends -/

section Sent

variable (o : Outcomes) (servers : Servers) (server : Addr) (request : Request)

/-- The invocation and the servers after its ping loop. -/
def afterPing : Invocation × Servers :=
  let inv := Invocation.enter server (servers server) request
  forEach o .ping inv.paxosStubs inv (entered servers server request)

/-- After its prepare loop. -/
def afterPrepare : Invocation × Servers :=
  let (inv, servers) := afterPing o servers server request
  forEach o (.prepare inv.prepareReq) inv.livePaxosStubs inv servers

/-- After its propose loop. -/
def afterPropose : Invocation × Servers :=
  let (inv, servers) := afterPrepare o servers server request
  forEach o (.propose inv.proposeReq) inv.livePaxosStubs inv servers

/-- `runPaxos` makes these loops, as long as it does not return. -/
theorem runPaxos_eq_loops :
    runPaxos o servers server request =
      if (afterPing o servers server request).1.livePaxosStubs = [] then
        (Invocation.noneLive, (afterPing o servers server request).2)
      else
        let (inv, servers₁) := afterPrepare o servers server request
        if inv.numOfPromised ≤ inv.numOfAcceptors / 2 then (inv.failedQuorum, servers₁)
        else
          let (inv, servers₂) := afterPropose o servers server request
          if inv.numOfAccepted ≤ inv.numOfAcceptors / 2 then (inv.failedConsensus, servers₂)
          else
            (Status.OK,
              (forEach o (.inform inv.informReq) inv.livePaxosStubs inv servers₂).2) :=
  rfl

end Sent

section Loops

variable {o : Outcomes} {servers : Servers} {server : Addr} {request : Request}

variable (o servers server request) in
theorem afterPrepare_eq : ∃ phase promisedBy, afterPrepare o servers server request =
    ({ Invocation.enter server (servers server) request with
        phase := phase
        livePaxosStubs := live o servers server
        numOfPromised := (Solo.promises o servers server request).length
        promisedBy := promisedBy
        acceptedId := (Solo.bestPromise o servers server request).acceptedId
        acceptedType := (Solo.bestPromise o servers server request).type
        acceptedValue := (Solo.bestPromise o servers server request).value },
      Solo.prepared o servers server request) := by
  obtain ⟨phase, hping⟩ := Solo.forEach_ping o servers server request
  obtain ⟨phase', promisedBy, hprepare⟩ := Solo.forEach_prepare o servers server request
    { Invocation.enter server (servers server) request with
      phase := phase
      livePaxosStubs := live o servers server } rfl rfl rfl rfl
  refine ⟨phase', promisedBy, ?_⟩
  unfold afterPrepare afterPing
  simp only [hping]
  exact hprepare

/-- The propose loop sends the proposal of the reference. -/
theorem propose_sent : Message.propose (afterPrepare o servers server request).1.proposeReq =
    proposeMsg o servers server request := by
  obtain ⟨phase, promisedBy, hafter⟩ := afterPrepare_eq o servers server request
  rw [hafter, ← proposeMsg_eq]
  rfl

/-- The inform loop passes the acceptance on. -/
theorem inform_sent (hne : acceptors o servers server request ≠ []) :
    Message.inform (afterPropose o servers server request).1.informReq =
      informMsg o servers server request := by
  obtain ⟨phase, promisedBy, hafter⟩ := afterPrepare_eq o servers server request
  obtain ⟨phase', acceptedBy, hpropose⟩ := Solo.forEach_propose o servers server request
    (afterPrepare o servers server request).1 (by rw [hafter]; rfl)
  have hloop : afterPropose o servers server request =
      forEach o (Solo.proposeMsg o servers server request) (live o servers server)
        (afterPrepare o servers server request).1 (Solo.prepared o servers server request) := by
    unfold afterPropose
    rw [hafter]
    rfl
  rw [← acceptors_eq] at hne
  rw [hloop, hpropose, ← informMsg_eq, hafter]
  simp only [Invocation.informReq, if_neg hne]
  rfl

/-- `RunPaxos` alone is its reference.  It returns OK or ABORTED, and OK
exactly when live replicas answered and more than half of them promised and
accepted.  It proposes the operation of the reference, and informs of it.
Every server is affected as the reference says, in the slot of the invocation
only.  An ABORTED invocation leaves every value and every coordinator, and the
servers that are not live only see the proposer read its latest round. -/
theorem runPaxos_reference (o : Outcomes) (servers : Servers) (server : Addr)
    (request : Request) :
    ((runPaxos o servers server request).1.ok = true ↔
      live o servers server ≠ [] ∧
        (live o servers server).length < 2 * (voters o servers server request).length ∧
        (live o servers server).length < 2 * (acceptors o servers server request).length) ∧
    Message.propose (afterPrepare o servers server request).1.proposeReq =
      proposeMsg o servers server request ∧
    ((runPaxos o servers server request).1.ok = true →
      Message.inform (afterPropose o servers server request).1.informReq =
        informMsg o servers server request) ∧
    ((runPaxos o servers server request).1.ok = false →
      (runPaxos o servers server request).1.code = .aborted ∧
        ∀ a, ((runPaxos o servers server request).2 a).kvDb.dataMap = (servers a).kvDb.dataMap ∧
          ((runPaxos o servers server request).2 a).paxosStubsMap.coordinator =
            (servers a).paxosStubsMap.coordinator) ∧
    (∀ a, Affected request.key (round servers server request) (servers a)
      ((runPaxos o servers server request).2 a) (Logs o servers server request a)
      (accepted o servers server request a) (executed o servers server request a)) ∧
    ∀ a, a ∉ live o servers server →
      (runPaxos o servers server request).2 a = entered servers server request a := by
  have haffected := affected_runPaxos o servers server request
  refine ⟨ok_iff, propose_sent, fun hok => ?_, fun hok => ?_, haffected,
    fun a => Solo.runPaxos_eq_entered⟩
  · have hconsensus := (ok_iff.mp hok).2.2
    refine inform_sent fun hnil => ?_
    rw [hnil] at hconsensus
    exact absurd hconsensus (Nat.not_lt_zero _)
  · have hnot : ¬ Consensus o servers server request := fun h => by
      rw [ok_iff.mpr ⟨live_ne_nil h.1, h⟩] at hok
      cases hok
    refine ⟨code_of_not_ok hok, fun a => ?_⟩
    have hexecuted : executed o servers server request a = none := if_neg fun h => hnot h.1.1
    have ha := haffected a
    rw [hexecuted] at ha
    exact ha.dataMap_eq

end Loops

end Reference

end PaxosKVStore
