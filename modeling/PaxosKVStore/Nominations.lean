import Mathlib.Data.List.Find
import PaxosKVStore.Solo

/-!
# The election of a server that starts

When every replica is reachable an election succeeds: no promise is recorded,
so all acceptors promise and accept, and `RandomFail` spares the reserved key.
A server that starts with an empty log runs it in round 1, where an older
election may have left its nominee, and the first nominee in address order
wins over the server itself.

`SoundServer` is what all servers keep in any run: proposal ids are 1, and
the acceptances of the reserved key nominate listed addresses.
-/

namespace PaxosKVStore

/-- A server at its start. -/
def freshServer (stubs : PaxosStubs) (addr : Addr) : MultiPaxosServiceImpl where
  myPaxosAddress := addr
  paxosStubsMap := { stubs := stubs }

/-- The operation makes a listed address the coordinator. -/
def Nominates (stubs : PaxosStubs) (op : Operation) : Prop :=
  op.type = .setCoordinator ∧ op.value ∈ stubs.addrs

structure SoundServer (stubs : PaxosStubs) (addr : Addr) (s : MultiPaxosServiceImpl) : Prop where
  address : s.myPaxosAddress = addr
  configured : s.paxosStubsMap.stubs = stubs
  promised : ∀ key r, (s.kvDb.paxosLog key r).promisedId = 0
  accepted : ∀ key r, (s.kvDb.paxosLog key r).acceptedId = 0 ∨
    (s.kvDb.paxosLog key r).acceptedId = 1
  nominates : ∀ r, 0 < (s.kvDb.paxosLog "coordinator" r).acceptedId →
    Nominates stubs (s.kvDb.paxosLog "coordinator" r).operation
  coordinator : s.paxosStubsMap.coordinator = "" ∨ s.paxosStubsMap.coordinator ∈ stubs.addrs

variable {stubs : PaxosStubs}

theorem soundServer_fresh (addr : Addr) : SoundServer stubs addr (freshServer stubs addr) where
  address := rfl
  configured := rfl
  promised key r := by simp [freshServer]
  accepted key r := by simp [freshServer]
  nominates r h := by simp [freshServer] at h
  coordinator := Or.inl rfl

/-- A call keeps a server sound if it records a sound acceptance. -/
theorem SoundServer.handled {addr : Addr} {s s' : MultiPaxosServiceImpl} {msg : Message}
    {reply : Reply} (h : SoundServer stubs addr s) (hhandled : Handled s s' msg reply)
    (hrecorded : ∀ written ∈ msg.recorded reply, written.acceptance.proposeId = 1 ∧
      (written.key = "coordinator" → Nominates stubs written.acceptance.operation)) :
    SoundServer stubs addr s' := by
  have hlog : ∀ key r, s'.kvDb.paxosLog key r = s.kvDb.paxosLog key r ∨
      ∃ written ∈ msg.recorded reply, written.key = key ∧
        s'.kvDb.paxosLog key r = (s.kvDb.paxosLog key r).accept written.acceptance := by
    intro key r
    have heq := hhandled.log key r
    split at heq
    · rename_i written hwritten
      split at heq
      · rename_i hat
        exact Or.inr ⟨written, hwritten, hat.1.symm, heq⟩
      · exact Or.inl heq
    · exact Or.inl heq
  refine ⟨hhandled.address.trans h.address, hhandled.stubs.trans h.configured, ?_, ?_, ?_, ?_⟩
  · intro key r
    rcases hlog key r with heq | ⟨written, _, _, heq⟩
    · rw [heq]
      exact h.promised key r
    · rw [heq]
      exact h.promised key r
  · intro key r
    rcases hlog key r with heq | ⟨written, hwritten, _, heq⟩
    · rw [heq]
      exact h.accepted key r
    · rw [heq]
      exact Or.inr (hrecorded written hwritten).1
  · intro r hpos
    rcases hlog "coordinator" r with heq | ⟨written, hwritten, hkey, heq⟩
    · rw [heq] at hpos ⊢
      exact h.nominates r hpos
    · rw [heq]
      exact (hrecorded written hwritten).2 hkey
  · rw [hhandled.coordinator]
    split
    · split
      · rename_i hset
        exact Or.inr (h.configured ▸ hset.2)
      · exact h.coordinator
    · exact h.coordinator

namespace Solo

variable {servers : Servers} {server : Addr} {request : Request} {o : Outcomes}

theorem foldl_higher_mem (ps : List PromiseResponse) (best : PromiseResponse) :
    ps.foldl higher best = best ∨ ps.foldl higher best ∈ ps := by
  induction ps generalizing best with
  | nil => exact Or.inl rfl
  | cons p rest ih =>
    rw [List.foldl_cons]
    rcases ih (higher best p) with heq | hmem
    · rw [heq, higher]
      split
      · exact Or.inr List.mem_cons_self
      · exact Or.inl rfl
    · exact Or.inr (List.mem_cons_of_mem _ hmem)

/-- Between sound servers an election proposes a listed address. -/
theorem nominates_proposal (hsound : ∀ a, SoundServer stubs a (servers a))
    (hkey : request.key = "coordinator") (hrequest : Nominates stubs request.setProposeValue) :
    Nominates stubs (proposal o servers server request) := by
  unfold proposal
  split
  · rename_i hpos
    rcases foldl_higher_mem (promises o servers server request) {} with heq | hmem
    · rw [bestPromise, heq] at hpos
      exact absurd hpos (by decide)
    · obtain ⟨a, _, hpromise⟩ := List.mem_filterMap.mp hmem
      rcases carries_of_promiseOf hpromise with ⟨hlog, _, hop⟩ | ⟨_, hzero⟩
      · rw [bestPromise, hop, hkey]
        exact (hsound a).nominates _ (hkey ▸ hlog)
      · rw [bestPromise, hzero] at hpos
        exact absurd hpos (by decide)
  · exact hrequest

/-- An invocation keeps the servers sound. -/
theorem soundServer_runPaxos (hsound : ∀ a, SoundServer stubs a (servers a))
    (hrequest : request.key = "coordinator" → Nominates stubs request.setProposeValue)
    (a : Addr) : SoundServer stubs a ((runPaxos o servers server request).2 a) := by
  refine runPaxos_related (R := fun s s' => SoundServer stubs a s → SoundServer stubs a s')
    (fun h h' hs => h' (h hs)) ?_ a (hsound a)
  intro msg hmsg s s' reply h hs
  refine hs.handled h fun written hwritten => ?_
  have hproposal : request.key = "coordinator" →
      Nominates stubs (proposal o servers server request) := fun hkey =>
    nominates_proposal hsound hkey (hrequest hkey)
  simp only [messages, List.mem_cons, List.not_mem_nil, or_false] at hmsg
  rcases hmsg with rfl | rfl | rfl | rfl
  · cases hwritten
  · cases hwritten
  · simp only [proposeMsg, Message.recorded] at hwritten
    split at hwritten
    · cases hwritten
      exact ⟨rfl, hproposal⟩
    · cases hwritten
  · simp only [Message.recorded] at hwritten
    split at hwritten
    · cases hwritten
    · cases hwritten
      exact ⟨rfl, hproposal⟩

/-! ## Elections and the data -/

/-- An election changes no data. -/
theorem value_of_election {o : Outcomes} (hsound : ∀ a, SoundServer stubs a (servers a))
    (hkey : request.key = "coordinator") (hrequest : Nominates stubs request.setProposeValue)
    (a : Addr) (key : String) :
    ((runPaxos o servers server request).2 a).kvDb.getValue key =
      (servers a).kvDb.getValue key := by
  have hproposal : Nominates stubs (proposal o servers server request) :=
    nominates_proposal hsound hkey hrequest
  refine @runPaxos_related o servers server request
    (fun s s' => s'.kvDb.getValue key = s.kvDb.getValue key) (fun h h' => h'.trans h) ?_ a
  intro msg hmsg s s' reply h
  rw [h.value]
  split
  · rename_i key' op hexecuted
    have heffect : op.effect (s.kvDb.getValue key) = s.kvDb.getValue key := by
      simp only [messages, List.mem_cons, List.not_mem_nil, or_false] at hmsg
      rcases hmsg with rfl | rfl | rfl | rfl
      · cases hexecuted
      · cases hexecuted
      · cases hexecuted
      · simp only [Message.executed] at hexecuted
        split at hexecuted
        · cases hexecuted
          simp only [Operation.effect, informReq, AcceptResponse.operation, hproposal.1]
        · cases hexecuted
    rw [heffect, ite_self]
  · rfl

/-- A successful election leaves the server with the coordinator that it
proposed. -/
theorem coordinator_of_election {reach : Addr → Bool} {randomFail : Message → Addr → Bool}
    (hsound : ∀ a, SoundServer stubs a (servers a)) (hlisted : server ∈ stubs.addrs)
    (hreach : reach server = true) (hkey : request.key = "coordinator")
    (hrequest : Nominates stubs request.setProposeValue)
    (hok : (runPaxos (.within reach randomFail) servers server request).1.ok = true) :
    ((runPaxos (.within reach randomFail) servers server request).2
        server).paxosStubsMap.coordinator =
      (proposal (.within reach randomFail) servers server request).value := by
  have hlive : server ∈ live (.within reach randomFail) servers server := by
    refine mem_live_within.mpr ⟨?_, hreach⟩
    rw [PaxosStubsMap.getPaxosStubs, (hsound server).configured]
    exact hlisted
  obtain ⟨htype, hvalue⟩ :
      Nominates stubs (proposal (.within reach randomFail) servers server request) :=
    nominates_proposal hsound hkey hrequest
  have hlow : ∀ r ∈ (servers server).kvDb.rounds request.key,
      r ≤ round servers server request := by
    intro r hr
    have hle := KeyValueDataBase.le_latestRound hr
    rw [round]
    omega
  have hexecuted := @informed_executes reach randomFail servers server request server hlive hlow
  have hcoordinator := (visited_within hlive
    (.inform (informReq (.within reach randomFail) servers server request))
    (proposed (.within reach randomFail) servers server request)).1.coordinator
  rw [hexecuted] at hcoordinator
  rw [runPaxos_eq_of_ok hok]
  have hstubs : (proposed (.within reach randomFail) servers server request
      server).paxosStubsMap.stubs = stubs :=
    (visited_within hlive _ _).1.stubs.trans ((visited_within hlive _ _).1.stubs.trans
      ((entered_unchanged servers server request server).stubs.trans
        (hsound server).configured))
  exact hcoordinator.trans (if_pos ⟨htype, hstubs ▸ hvalue⟩)

/-! ## Whom an election nominates -/

/-- In an election every reachable replica promises, with the acceptance that
it has logged. -/
theorem promise_of_election {reach : Addr → Bool} {randomFail : Message → Addr → Bool} {a : Addr}
    (hsound : SoundServer stubs a (servers a)) (hreach : reach a = true)
    (hkey : request.key = "coordinator") :
    ∃ response, promiseOf (.within reach randomFail) servers server request a = some response ∧
      response.acceptedId =
        ((servers a).kvDb.paxosLog "coordinator" (round servers server request)).acceptedId ∧
      (0 < response.acceptedId → response.operation =
        ((servers a).kvDb.paxosLog "coordinator" (round servers server request)).operation) := by
  have hlog : (entered servers server request a).kvDb.paxosLog request.key
      (round servers server request) =
      (servers a).kvDb.paxosLog request.key (round servers server request) :=
    (entered_unchanged servers server request a).log request.key _
  have hok : ((entered servers server request a).prepare {}
      { key := request.key, round := round servers server request, proposeId := 1 }
      (randomFail (prepareMsg servers server request) a)).1.1.ok = true := by
    refine (MultiPaxosServiceImpl.prepare_ok_iff _ _ _).mpr ⟨?_, fun hrejects => hrejects.1 hkey⟩
    rw [hlog, hsound.promised]
    exact zero_lt_one
  have hpromise : promiseOf (.within reach randomFail) servers server request a =
      some ((entered servers server request a).prepare {}
        { key := request.key, round := round servers server request, proposeId := 1 }
        (randomFail (prepareMsg servers server request) a)).1.2 := by
    rw [promiseOf, exchange_within hreach]
    exact (promise_handle _ _ _).trans (if_pos hok)
  refine ⟨_, hpromise, ?_⟩
  rw [← hkey]
  rcases carries_of_promiseOf hpromise with ⟨_, hid, hop⟩ | ⟨hzero, hid⟩
  · exact ⟨hid, fun _ => hop⟩
  · rw [hid]
    refine ⟨?_, fun h => absurd h (lt_irrefl _)⟩
    rcases hsound.accepted request.key (round servers server request) with h | h
    · exact h.symm
    · rw [h] at hzero
      exact absurd zero_lt_one hzero

/-- Of promises with ids up to 1 the first one wins that carries an acceptance. -/
theorem foldl_higher_eq_find {ps : List PromiseResponse} (h : ∀ p ∈ ps, p.acceptedId ≤ 1) :
    ps.foldl higher {} = (ps.find? fun p => 0 < p.acceptedId).getD {} := by
  induction ps with
  | nil => rfl
  | cons p rest ih =>
    rw [List.forall_mem_cons] at h
    rw [List.foldl_cons, List.find?_cons]
    by_cases hpos : 0 < p.acceptedId
    · have hone : ∀ q ∈ rest, q.acceptedId ≤ p.acceptedId := fun q hq =>
        (h.2 q hq).trans hpos
      have hhigher : higher {} p = p := if_pos hpos
      rw [hhigher, foldl_higher_of_le hone]
      simp [hpos]
    · have hhigher : higher {} p = {} := if_neg hpos
      rw [hhigher, ih h.2]
      simp [hpos]

/-- The nominee of the first replica that has accepted one in the round, or
else the server itself. -/
def nominee (stubs : PaxosStubs) (servers : Servers) (round : Int) (server : Addr) : Addr :=
  match stubs.addrs.find? fun a =>
      0 < ((servers a).kvDb.paxosLog "coordinator" round).acceptedId with
  | some a => ((servers a).kvDb.paxosLog "coordinator" round).acceptedValue
  | none => server

/-- An election that reaches all replicas proposes the nominee. -/
theorem proposal_of_election {reach : Addr → Bool} {randomFail : Message → Addr → Bool}
    (hsound : ∀ a, SoundServer stubs a (servers a))
    (hreach : ∀ a ∈ stubs.addrs, reach a = true) :
    (proposal (.within reach randomFail) servers server
        (.electCoordinator "coordinator" server)).value =
      nominee stubs servers
        (round servers server (.electCoordinator "coordinator" server)) server := by
  set request := Request.electCoordinator "coordinator" server with hrequest
  have hlive : live (.within reach randomFail) servers server = stubs.addrs := by
    rw [live, PaxosStubsMap.getPaxosStubs, (hsound server).configured, List.filter_eq_self]
    intro a ha
    simp [Outcomes.within, hreach a ha]
  have hpromises := fun a => @promise_of_election stubs servers server request reach randomFail a
    (hsound a)
  have hids : ∀ p ∈ promises (.within reach randomFail) servers server request,
      p.acceptedId ≤ 1 := by
    intro p hp
    obtain ⟨a, ha, hpromise⟩ := List.mem_filterMap.mp hp
    obtain ⟨response, heq, hid, _⟩ :=
      hpromises a (hreach a (hlive ▸ ha)) rfl
    rw [hpromise] at heq
    cases heq
    rw [hid]
    rcases (hsound a).accepted "coordinator" (round servers server request) with h | h <;>
      omega
  have hfind : (stubs.addrs.find? fun a =>
      (promiseOf (.within reach randomFail) servers server request a).any
        fun p => 0 < p.acceptedId) =
      stubs.addrs.find? fun a => 0 < ((servers a).kvDb.paxosLog "coordinator"
        (round servers server request)).acceptedId := by
    refine List.find?_congr fun a ha => ?_
    obtain ⟨response, heq, hid, _⟩ := hpromises a (hreach a ha) rfl
    rw [heq, ← hid]
    rfl
  rw [proposal, bestPromise, foldl_higher_eq_find hids, promises, hlive, List.find?_filterMap,
    hfind, nominee]
  cases hfirst : stubs.addrs.find? fun a => 0 < ((servers a).kvDb.paxosLog "coordinator"
    (round servers server request)).acceptedId with
  | none => rfl
  | some a =>
    obtain ⟨response, heq, hid, hop⟩ :=
      hpromises a (hreach a (List.mem_of_find?_eq_some hfirst)) rfl
    have hpos : 0 < response.acceptedId := by
      rw [hid]
      simpa using List.find?_some hfirst
    simp only [Option.bind_some, heq, Option.getD_some, if_pos hpos,
      hop hpos]
    rfl

end Solo

end PaxosKVStore
