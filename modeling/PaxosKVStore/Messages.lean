import PaxosKVStore.Delivery

/-!
# The calls that an invocation makes

`RunPaxos` calls the replicas in the order of the map, one loop after the
other.  So the calls that an invocation has made are a function of where it
stands: `made` is that list, and `sent` is what the history has of it.

No call is made twice, and an invocation over `n` replicas makes at most
`4 * n` of them.  The network can lose a call but not double it: what has been
handled and what is still in flight was sent, each call once.
-/

namespace PaxosKVStore

namespace Invocation

/-- What a loop over `replicas` has visited when `todo` is left. -/
def before (replicas todo : List Addr) : List Addr :=
  replicas.take (replicas.length - todo.length)

/-- One call for each replica. -/
def callsTo (replicas : List Addr) (msg : Message) : List (Addr × Message) :=
  replicas.map fun a => (a, msg)

/-- The calls that the invocation has made, in order. -/
def made (inv : Invocation) : List (Addr × Message) :=
  let pings := callsTo inv.paxosStubs .ping
  let prepares := callsTo inv.livePaxosStubs (.prepare inv.prepareReq)
  let proposes := callsTo inv.livePaxosStubs (.propose inv.proposeReq)
  let informs := callsTo inv.livePaxosStubs (.inform inv.informReq)
  match inv.phase with
  | .ping todo => callsTo (before inv.paxosStubs todo) .ping
  | .prepare todo =>
      pings ++ callsTo (before inv.livePaxosStubs todo) (.prepare inv.prepareReq)
  | .propose todo =>
      pings ++ prepares ++ callsTo (before inv.livePaxosStubs todo) (.propose inv.proposeReq)
  | .inform todo =>
      pings ++ prepares ++ proposes ++
        callsTo (before inv.livePaxosStubs todo) (.inform inv.informReq)
  | .returned status =>
      if status.ok then pings ++ prepares ++ proposes ++ informs
      else if inv.numOfAcceptors / 2 < inv.numOfPromised then pings ++ prepares ++ proposes
      else pings ++ prepares

variable {inv inv' : Invocation} {addr a : Addr} {msg msg' : Message} {answer : Option Reply}
  {replicas seen todo : List Addr}

@[simp] theorem before_append : before (seen ++ todo) todo = seen := by
  simp [before]

/-- A loop moves on by one replica. -/
theorem callsTo_before_cons (h : replicas = seen ++ addr :: todo) :
    callsTo (before replicas todo) msg =
      callsTo (before replicas (addr :: todo)) msg ++ [(addr, msg)] := by
  have hnext : replicas = (seen ++ [addr]) ++ todo := by simp [h]
  rw [hnext, before_append, ← hnext, h, before_append]
  simp [callsTo]

@[simp] theorem before_self : before replicas replicas = [] := by
  simp [before]

@[simp] theorem before_nil : before replicas [] = replicas := by
  simp [before]

@[simp] theorem callsTo_nil : callsTo [] msg = [] := rfl

theorem mem_callsTo : (a, msg') ∈ callsTo replicas msg ↔ a ∈ replicas ∧ msg' = msg := by
  simp [callsTo, eq_comm]

theorem nodup_callsTo (h : replicas.Nodup) : (callsTo replicas msg).Nodup :=
  h.map fun _ _ heq => (Prod.mk.inj heq).1

/-- Different loops make different calls. -/
theorem disjoint_callsTo (h : msg ≠ msg') {replicas' : List Addr} :
    (callsTo replicas msg).Disjoint (callsTo replicas' msg') := by
  rintro ⟨a, msg''⟩ hmem hmem'
  exact h ((mem_callsTo.mp hmem).2.symm.trans (mem_callsTo.mp hmem').2)

/-! ## The moves -/

/-- A new invocation has made no call. -/
theorem made_enter (server : Addr) (service : MultiPaxosServiceImpl) (request : Request) :
    (enter server service request).made = [] := by
  simp [made, enter]

/-- A call is added. -/
theorem made_receives (hwf : inv.Wf) (h : inv.Receives addr msg answer inv') :
    inv'.made = inv.made ++ [(addr, msg)] := by
  have hprogress := hwf.progress
  cases h with
  | skip hcall hskip =>
    cases hcall with
    | ping hphase =>
      simp only [Progress, hphase] at hprogress
      obtain ⟨⟨seen, hseen, _⟩, _⟩ := hprogress
      simp only [made, hphase, Phase.tail, List.tail_cons]
      exact callsTo_before_cons hseen
    | prepare hphase =>
      simp only [Progress, hphase] at hprogress
      obtain ⟨_, ⟨seen, hseen, _⟩, _⟩ := hprogress
      simp only [made, hphase, Phase.tail, List.tail_cons, List.append_assoc]
      exact congrArg _ (callsTo_before_cons hseen)
    | propose hphase =>
      simp only [Progress, hphase] at hprogress
      obtain ⟨_, seen, hseen, _⟩ := hprogress
      simp only [made, hphase, Phase.tail, List.tail_cons, List.append_assoc]
      exact congrArg _ (congrArg _ (callsTo_before_cons hseen))
    | inform hphase =>
      simp only [Progress, hphase] at hprogress
      obtain ⟨_, _, seen, hseen⟩ := hprogress
      simp only [made, hphase, Phase.tail, List.tail_cons, List.append_assoc]
      exact congrArg _ (congrArg _ (congrArg _ (callsTo_before_cons hseen)))
  | live hphase hok =>
    simp only [Progress, hphase] at hprogress
    obtain ⟨⟨seen, hseen, _⟩, _⟩ := hprogress
    simp only [made, hphase]
    exact callsTo_before_cons hseen
  | promise hphase hok hlow =>
    simp only [Progress, hphase] at hprogress
    obtain ⟨_, ⟨seen, hseen, _⟩, _⟩ := hprogress
    simp only [made, hphase, List.append_assoc]
    exact congrArg _ (callsTo_before_cons hseen)
  | promiseHigher hphase hok hhigh =>
    simp only [Progress, hphase] at hprogress
    obtain ⟨_, ⟨seen, hseen, _⟩, _⟩ := hprogress
    simp only [made, hphase, List.append_assoc]
    exact congrArg _ (callsTo_before_cons hseen)
  | accept hphase hok =>
    simp only [Progress, hphase] at hprogress
    obtain ⟨_, seen, hseen, _⟩ := hprogress
    simp only [made, hphase, List.append_assoc]
    exact congrArg _ (congrArg _ (callsTo_before_cons hseen))

/-- The code between the loops makes no call. -/
theorem made_advances (hwf : inv.Wf) (h : inv.Advances inv') : inv'.made = inv.made := by
  have hprogress := hwf.progress
  have haborted : ∀ message, ({ code := .aborted, message := message } : Status).ok = false :=
    fun _ => rfl
  cases h with
  | noneLive message hphase hlive =>
    simp only [Progress, hphase] at hprogress
    have hcount : ¬ inv.numOfAcceptors / 2 < inv.numOfPromised := by
      simp [numOfAcceptors, hlive, hwf.countPromised, hprogress.2.1]
    simp only [made, finish, hphase, haborted, Bool.false_eq_true, if_false, before_nil]
    refine (if_neg hcount).trans ?_
    rw [hlive, callsTo_nil, List.append_nil]
  | startPrepare hphase hlive => simp only [made, hphase, before_self, before_nil, callsTo_nil,
      List.append_nil]
  | failedQuorum message hphase hcount =>
    simp only [made, finish, hphase, haborted, Bool.false_eq_true, if_false, before_nil]
    exact if_neg (not_lt.mpr hcount)
  | startPropose hphase hcount =>
    simp only [made, hphase, before_self, before_nil, callsTo_nil, List.append_nil]
    rfl
  | failedConsensus message hphase hcount =>
    simp only [Progress, hphase] at hprogress
    have hquorum : inv.numOfAcceptors / 2 < inv.numOfPromised := by
      rw [numOfAcceptors, hwf.countPromised]
      exact hprogress.1.half_lt
    simp only [made, finish, hphase, haborted, Bool.false_eq_true, if_false, before_nil]
    exact if_pos hquorum
  | startInform hphase hcount =>
    simp only [made, hphase, before_self, before_nil, callsTo_nil, List.append_nil]
    rfl
  | done hphase =>
    simp only [made, finish, hphase, before_nil, Status.ok_OK, if_true]
    rfl

/-! ## How many calls -/

/-- What an invocation has made is the beginning of its four loops. -/
theorem made_sublist (inv : Invocation) : inv.made.Sublist
    (callsTo inv.paxosStubs .ping ++ callsTo inv.livePaxosStubs (.prepare inv.prepareReq) ++
      callsTo inv.livePaxosStubs (.propose inv.proposeReq) ++
      callsTo inv.livePaxosStubs (.inform inv.informReq)) := by
  have hbefore : ∀ (replicas todo : List Addr) (msg : Message),
      (callsTo (before replicas todo) msg).Sublist (callsTo replicas msg) := by
    intro replicas todo msg
    exact (List.take_sublist ..).map _
  have happend : ∀ {l l' : List (Addr × Message)}, l.Sublist (l ++ l') := fun {l l'} =>
    List.sublist_append_left l l'
  unfold made
  split
  · exact (hbefore ..).trans (happend.trans (happend.trans happend))
  · exact ((List.Sublist.refl _).append (hbefore ..)).trans (happend.trans happend)
  · exact ((List.Sublist.refl _).append (hbefore ..)).trans happend
  · exact (List.Sublist.refl _).append (hbefore ..)
  · split_ifs
    · exact .refl _
    · exact happend
    · exact happend.trans happend

/-- No call is made twice. -/
theorem nodup_made (hwf : inv.Wf) : inv.made.Nodup := by
  have hlive : inv.livePaxosStubs.Nodup := hwf.live.nodup hwf.nodup
  refine inv.made_sublist.nodup ?_
  refine (((nodup_callsTo hwf.nodup).append (nodup_callsTo hlive) ?_).append
    (nodup_callsTo hlive) ?_).append (nodup_callsTo hlive) ?_
  · exact disjoint_callsTo (by simp)
  · exact List.disjoint_append_left.mpr
      ⟨disjoint_callsTo (by simp), disjoint_callsTo (by simp)⟩
  · exact List.disjoint_append_left.mpr ⟨List.disjoint_append_left.mpr
      ⟨disjoint_callsTo (by simp), disjoint_callsTo (by simp)⟩, disjoint_callsTo (by simp)⟩

/-- Each loop calls a replica at most once. -/
theorem length_made_le (hwf : inv.Wf) : inv.made.length ≤ 4 * inv.paxosStubs.length := by
  have hle := inv.made_sublist.length_le
  have hlive := hwf.live.length_le
  simp only [callsTo, List.length_append, List.length_map] at hle
  omega

end Invocation

/-! ## What the network does with the calls -/

/-- The call that an invocation makes in this event. -/
def Event.sentBy (run : Nat) : Event → Option (Addr × Message)
  | .sent i receiver msg => if i = run then some (receiver, msg) else none
  | _ => none

/-- The call of an invocation that is handled in this event. -/
def Event.handledFor (run : Nat) : Event → Option (Addr × Message)
  | .handled i receiver msg _ _ => if i = run then some (receiver, msg) else none
  | _ => none

namespace System

variable {σ σ' : System} {act : Action} {run : Nat} {receiver : Addr} {msg : Message}

/-- The calls that `run` has made, in order. -/
def sent (σ : System) (run : Nat) : List (Addr × Message) :=
  (σ.history.filterMap (Event.sentBy run)).reverse

/-- The calls of `run` that were handled, in order. -/
def handled (σ : System) (run : Nat) : List (Addr × Message) :=
  (σ.history.filterMap (Event.handledFor run)).reverse

/-- The calls of `run` that may still arrive. -/
def pending (σ : System) (run : Nat) : List (Addr × Message) :=
  σ.inFlight.filterMap fun call => if call.1 = run then some call.2 else none

/-- The history has the calls that each invocation has made, and what was
handled or may still arrive was sent. -/
structure Accounted (σ : System) : Prop where
  sent : ∀ run, σ.sent run = (σ.runs[run]?).elim [] Invocation.made
  once : ∀ run call, (σ.handled run).count call + (σ.pending run).count call ≤
    (σ.sent run).count call

theorem accounted_init (h : σ.IsInitial) : Accounted σ := by
  constructor
  · intro run
    simp [System.sent, h.history, h.runs]
  · intro run call
    simp [System.sent, handled, pending, h.history, h.inFlight]

/-! ### The steps -/

/-- `call` if it is one of `run`. -/
def ofRun (run i : Nat) (call : Addr × Message) : List (Addr × Message) :=
  if i = run then [call] else []

section Calls

variable (inv : Invocation) (fate : Fate) (randomFail : Bool) (i : Nat)

theorem sent_call : (σ.call i inv receiver msg fate randomFail).sent run =
    σ.sent run ++ ofRun run i (receiver, msg) := by
  unfold sent ofRun
  cases fate <;> by_cases h : i = run <;>
    simp [call, send, deliver, setRun, List.filterMap_cons, Event.sentBy, h]

theorem handled_call : (σ.call i inv receiver msg fate randomFail).handled run =
    σ.handled run ++ if fate = .delivered then ofRun run i (receiver, msg) else [] := by
  unfold handled ofRun
  cases fate <;> by_cases h : i = run <;>
    simp [call, send, deliver, setRun, List.filterMap_cons, Event.handledFor, h]

theorem pending_call : (σ.call i inv receiver msg fate randomFail).pending run =
    σ.pending run ++ if fate = .replyLost then ofRun run i (receiver, msg) else [] := by
  unfold pending ofRun
  rw [call_inFlight]
  cases fate <;> by_cases h : i = run <;> simp [h]

end Calls

/-- A return is not about a call. -/
theorem calls_noteReturn (run i : Nat) (inv : Invocation) :
    (σ.noteReturn i inv).sent run = σ.sent run ∧
      (σ.noteReturn i inv).handled run = σ.handled run ∧
      (σ.noteReturn i inv).pending run = σ.pending run := by
  unfold noteReturn
  split <;> simp [sent, handled, pending, List.filterMap_cons, Event.sentBy, Event.handledFor]

/-- A call that is handled was made before. -/
theorem calls_deliver (σ : System) (run i : Nat) (receiver : Addr) (msg : Message)
    (context : ServerContext) (randomFail : Bool) :
    (σ.deliver i receiver msg context randomFail).sent run = σ.sent run ∧
      (σ.deliver i receiver msg context randomFail).handled run =
        σ.handled run ++ ofRun run i (receiver, msg) := by
  unfold sent handled ofRun
  by_cases h : i = run <;>
    simp [deliver, List.filterMap_cons, Event.sentBy, Event.handledFor, h]

/-- A call that arrives was pending before. -/
theorem pending_arrive {index i : Nat} (hindex : σ.inFlight[index]? = some (i, receiver, msg)) :
    (σ.pending run).Perm (ofRun run i (receiver, msg) ++
      (σ.inFlight.eraseIdx index).filterMap fun call =>
        if call.1 = run then some call.2 else none) := by
  obtain ⟨hlt, hget⟩ := List.getElem?_eq_some_iff.mp hindex
  have hperm := (List.getElem_cons_eraseIdx_perm hlt).symm.filterMap
    fun call => if call.1 = run then some call.2 else none
  rw [hget, List.filterMap_cons] at hperm
  unfold ofRun
  by_cases h : i = run
  · simpa [pending, h] using hperm
  · simpa [pending, h] using hperm

theorem accounted_step (hprov : Provenance σ) (h : Accounted σ) (hstep : StepCases σ act σ') :
    Accounted σ' := by
  cases hstep with
  | refuse hrefusal =>
    refine ⟨fun run => ?_, fun run call => ?_⟩
    · simpa [sent, List.filterMap_cons, Event.sentBy] using h.sent run
    · simpa [sent, handled, pending, List.filterMap_cons, Event.sentBy, Event.handledFor]
        using h.once run call
  | @enter server request context hrefusal =>
    refine ⟨fun run => (h.sent run).trans ?_, h.once⟩
    dsimp only
    rcases lt_trichotomy run σ.runs.length with hlt | rfl | hgt
    · rw [List.getElem?_append_left hlt]
    · rw [List.getElem?_concat_length, List.getElem?_eq_none le_rfl]
      exact (Invocation.made_enter ..).symm
    · rw [List.getElem?_eq_none hgt.le, List.getElem?_eq_none (by simp; omega)]
  | @call i inv receiver msg fate randomFail hrun hcall =>
    have hmade := Invocation.made_receives (hprov.wf i inv hrun)
      (Invocation.receives_of_calls hcall (σ.callAnswer_answers receiver msg randomFail fate))
    refine ⟨fun run => ?_, fun run call => ?_⟩
    · rw [sent_call, h.sent, call_runs]
      unfold ofRun
      by_cases hi : i = run
      · subst hi
        rw [if_pos rfl, getElem?_set_self' hrun, hrun]
        exact hmade.symm
      · rw [if_neg hi, List.append_nil, List.getElem?_set_ne hi]
    · have honce := h.once run call
      rw [sent_call, handled_call, pending_call]
      simp only [List.count_append]
      cases fate <;> simp <;> omega
  | @advance i inv inv' hrun hadvance =>
    have hmade := Invocation.made_advances (hprov.wf i inv hrun) hadvance
    refine ⟨fun run => ?_, fun run call => ?_⟩
    · rw [(calls_noteReturn ..).1, noteReturn_runs]
      refine (h.sent run).trans ?_
      show _ = ((σ.runs.set i inv')[run]?).elim [] Invocation.made
      by_cases hi : i = run
      · subst hi
        rw [getElem?_set_self' hrun, hrun]
        exact hmade.symm
      · rw [List.getElem?_set_ne hi]
    · rw [(calls_noteReturn ..).1, (calls_noteReturn ..).2.1, (calls_noteReturn ..).2.2]
      exact h.once run call
  | @arrive index i receiver msg context randomFail hindex =>
    refine ⟨fun run => ?_, fun run call => ?_⟩
    · simpa [sent, deliver, List.filterMap_cons, Event.sentBy] using h.sent run
    · have honce := h.once run call
      have hpending := (@pending_arrive σ run receiver msg index i hindex).count_eq call
      obtain ⟨hsent, hhandled⟩ := σ.calls_deliver run i receiver msg context randomFail
      show List.count call ((σ.deliver i receiver msg context randomFail).handled run) +
          List.count call ((σ.inFlight.eraseIdx index).filterMap _) ≤
        List.count call ((σ.deliver i receiver msg context randomFail).sent run)
      rw [hsent, hhandled, List.count_append]
      rw [List.count_append] at hpending
      omega

theorem accounted_of_reachable {setup : System → Prop} {C : System → Action → Prop}
    (h : (paxos setup).Reachable C σ) : Accounted σ := by
  refine h.invariant (I := Accounted) ?_ ?_
  · rintro σ ⟨hinit, _⟩
    exact accounted_init hinit
  intro σ act σ' hreach _ hstep hσ
  exact accounted_step (provenance_of_reachable hreach) hσ (step_cases hstep)

/-- Under any behaviour of the network, the calls of an invocation are those
of its loops so far, each made once, and each is handled once at most. -/
theorem calls_of_reachable {setup : System → Prop} {C : System → Action → Prop}
    (h : (paxos setup).Reachable C σ) {inv : Invocation} (hrun : σ.runs[run]? = some inv) :
    σ.sent run = inv.made ∧ (σ.sent run).Nodup ∧
      (σ.sent run).length ≤ 4 * inv.paxosStubs.length ∧
      (σ.handled run ++ σ.pending run).Nodup ∧
      ∀ call ∈ σ.handled run ++ σ.pending run, call ∈ σ.sent run := by
  have haccounted := accounted_of_reachable h
  have hwf := (provenance_of_reachable h).wf run inv hrun
  have hsent : σ.sent run = inv.made := by
    rw [haccounted.sent, hrun]
    rfl
  have hnodup : (σ.sent run).Nodup := hsent ▸ inv.nodup_made hwf
  have hcount : ∀ call, (σ.handled run ++ σ.pending run).count call ≤
      (σ.sent run).count call := by
    intro call
    rw [List.count_append]
    exact haccounted.once run call
  refine ⟨hsent, hnodup, hsent ▸ inv.length_made_le hwf, ?_, fun call hcall => ?_⟩
  · refine List.nodup_iff_count_le_one.mpr fun call => ?_
    exact (hcount call).trans (List.nodup_iff_count_le_one.mp hnodup call)
  · have hpos := List.count_pos_iff.mpr hcall
    exact List.count_pos_iff.mp (hpos.trans_le (hcount call))

/-- A `Prepare` of which the reply is lost arrives after the next ones. -/
def lateArrival : List Action :=
  [.start "a" (.put "k" "x")] ++ Action.loop 0 3 ++
    [.call 0 .replyLost false, .call 0 .delivered false, .arrive 0 {} false,
      .call 0 .delivered false]

set_option maxRecDepth 10000 in
/-- It is handled once. -/
theorem calls_lateArrival :
    ∃ σ : System, ∃ inv ∈ σ.runs[0]?, σ.pending 0 = [] ∧ (σ.handled 0).length = 6 ∧
      σ.sent 0 = inv.made ∧ (σ.sent 0).Nodup ∧
      (σ.sent 0).length ≤ 4 * inv.paxosStubs.length ∧
      (σ.handled 0 ++ σ.pending 0).Nodup ∧
      ∀ call ∈ σ.handled 0 ++ σ.pending 0, call ∈ σ.sent 0 := by
  have hrun : ∃ σ ∈ (paxos (SharesReplicas (.ofReplicas ["a", "b", "c"]))).execWhere
      Unrestricted (fresh ["a", "b", "c"]) lateArrival,
      ∃ inv ∈ σ.runs[0]?, σ.pending 0 = [] ∧ (σ.handled 0).length = 6 := by
    decide +kernel
  obtain ⟨σ, hreach, inv, hi, hpending, hhandled⟩ := exists_reachable_fresh hrun
  exact ⟨σ, inv, hi, hpending, hhandled, calls_of_reachable hreach hi⟩

end System

end PaxosKVStore
