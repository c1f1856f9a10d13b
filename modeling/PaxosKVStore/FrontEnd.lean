import PaxosKVStore.Lib.ActionSystem
import PaxosKVStore.Reference
import PaxosKVStore.RequestFlow

/-!
# `RequestFlow` one step at a time

A request flow holds no lock between its calls, and the coordinator of its
server changes whenever an `Inform` for "coordinator" arrives.  `Flow.step` is
one step of `RequestFlow`: what the calls return is an argument of it, and so
is the stubs map that it finds.  `GetCoordinatorStub` looks `coordinator_` up
twice, so it takes two steps.

`frontEnd` runs one flow against `SetCoordinator` calls with any addresses.
`Course` is what a flow has done when it is at a phase, and the answer is read
off it.  `requestFlow_comes` finds `requestFlow`, which is the whole function
without an interruption, among these runs.
-/

namespace PaxosKVStore

/-- What a request flow does that others see. -/
inductive FlowEvent where
  | forward (stub : Addr)
  | forwarded (status : Status)
  | elected (status : Status)
  deriving DecidableEq, Repr

namespace FlowEvent

/-- The callee of a forward. -/
def forward? : FlowEvent → Option Addr
  | .forward stub => some stub
  | _ => none

/-- What a forward returned. -/
def forwarded? : FlowEvent → Option Status
  | .forwarded status => some status
  | _ => none

end FlowEvent

/-- Where a request flow is.  `election` is what the election returned, if
there was one. -/
inductive FlowPhase where
  -- In `GetCoordinatorStub`.
  | finding (election : Option Status)
  | fetching (election : Option Status)
  | forwarding (election : Option Status) (stub : Addr)
  -- In `ElectNewCoordinator`.
  | electing
  | nominating (stub : Option Addr)
  | returned (answer : Answer)
  | crashed
  deriving DecidableEq, Repr

/-- A call of `RequestFlow`, with all that it has done. -/
structure Flow where
  phase : FlowPhase := .finding none
  trace : List FlowEvent := []
  deriving DecidableEq, Repr

namespace Flow

/-- The current coordinator does not answer. -/
def Unavailable (status : Status) : Prop :=
  status.code = .unavailable ∨ status.code = .deadlineExceeded

instance (status : Status) : Decidable (Unavailable status) :=
  inferInstanceAs (Decidable (_ ∨ _))

def forward (flow : Flow) (election : Option Status) (stub : Addr) : Flow where
  phase := .forwarding election stub
  trace := flow.trace ++ [.forward stub]

/-- With the result of `GetCoordinatorStub`. -/
def lookedUp (flow : Flow) (election : Option Status) (stub : Option Addr) : Flow :=
  match election with
  | none =>
      match stub with
      | none =>
          { flow with
            phase :=
              .returned { status := { code := .aborted, message := "Coordinator is not set." } } }
      | some addr => flow.forward none addr
  | some electionStatus =>
      let failed : Answer :=
        { status :=
            { code := electionStatus.code
              message := "Can't reach Coordinator. Failed to elect a new Coordinator. " ++
                electionStatus.message } }
      if electionStatus.ok then
        match stub with
        | none => { flow with phase := .returned failed }
        | some addr => flow.forward election addr
      else { flow with phase := .returned failed }

/-- One step of `RequestFlow`, if it has not returned.  `outcome` is what the
call returns that it waits for. -/
def step (map : PaxosStubsMap) (myPaxosAddress : Addr) (outcome : Answer) (flow : Flow) :
    Option Flow :=
  match flow.phase with
  | .finding election =>
      if map.coordinator ∈ map.stubs.addrs then some { flow with phase := .fetching election }
      else some (flow.lookedUp election none)
  | .fetching election => some (flow.lookedUp election map.getCoordinatorStub)
  | .forwarding election _ =>
      let trace := flow.trace ++ [.forwarded outcome.status]
      match election with
      | none =>
          if Unavailable outcome.status then some { phase := .electing, trace := trace }
          else some { phase := .returned outcome, trace := trace }
      | some _ =>
          if outcome.status.ok then some { phase := .returned outcome, trace := trace }
          else
            some
              { phase :=
                  .returned { outcome with
                    status :=
                      { code := outcome.status.code
                        message := "Failed to communicate with Coordinator. " ++
                          outcome.status.message } }
                trace := trace }
  | .electing => some { flow with phase := .nominating (map.getStub myPaxosAddress) }
  | .nominating none => some { flow with phase := .crashed }
  | .nominating (some _) =>
      some
        { phase := .finding (some outcome.status)
          trace := flow.trace ++ [.elected outcome.status] }
  | .returned _ => none
  | .crashed => none

end Flow

/-- A request flow and the stubs map of its server. -/
structure FrontEnd where
  map : PaxosStubsMap
  flow : Flow := {}

inductive FrontEndAction where
  | step (outcome : Answer)
  | setCoordinator (coordinator : Addr)

/-- A request flow beside `SetCoordinator` calls.  It begins with any
coordinator, listed or not. -/
def frontEnd (myPaxosAddress : Addr) : ActionSystem FrontEnd FrontEndAction where
  isInitial s := myPaxosAddress ∈ s.map.stubs.addrs ∧ "" ∉ s.map.stubs.addrs ∧ s.flow = {}
  step s act :=
    match act with
    | .step outcome =>
        (s.flow.step s.map myPaxosAddress outcome).map fun flow => { s with flow := flow }
    | .setCoordinator coordinator => some { s with map := (s.map.setCoordinator coordinator).2 }

/-! ## What a flow has done -/

namespace Flow

/-- The trace of a flow at each phase that it comes to.  If `sound` holds, the
stubs that it asks for after its first forward are there. -/
inductive Course (sound : Prop) (myPaxosAddress : Addr) :
    FlowPhase → List FlowEvent → Prop where
  | first {phase : FlowPhase} (hphase : phase = .finding none ∨ phase = .fetching none) :
      Course sound myPaxosAddress phase []
  | notSet {answer : Answer} (hnot : answer.status.ok = false) :
      Course sound myPaxosAddress (.returned answer) []
  | forwarding {stub : Addr} :
      Course sound myPaxosAddress (.forwarding none stub) [.forward stub]
  | answered {stub : Addr} {answer : Answer} :
      Course sound myPaxosAddress (.returned answer) [.forward stub, .forwarded answer.status]
  | electing {stub : Addr} {status : Status} (hunavailable : Unavailable status) :
      Course sound myPaxosAddress .electing [.forward stub, .forwarded status]
  | nominating {own : Option Addr} {stub : Addr} {status : Status}
      (hunavailable : Unavailable status) (hown : sound → own = some myPaxosAddress) :
      Course sound myPaxosAddress (.nominating own) [.forward stub, .forwarded status]
  | crashed {stub : Addr} {status : Status} (hunavailable : Unavailable status)
      (hunsound : ¬ sound) :
      Course sound myPaxosAddress .crashed [.forward stub, .forwarded status]
  | elected {phase : FlowPhase} {stub : Addr} {status election : Status}
      (hunavailable : Unavailable status)
      (hphase : phase = .finding (some election) ∨ phase = .fetching (some election)) :
      Course sound myPaxosAddress phase [.forward stub, .forwarded status, .elected election]
  | failed {stub : Addr} {status election : Status} {answer : Answer}
      (hunavailable : Unavailable status) (hanswer : sound → answer.status.ok = false) :
      Course sound myPaxosAddress (.returned answer)
        [.forward stub, .forwarded status, .elected election]
  | forwardingAgain {stub stub' : Addr} {status election : Status}
      (hunavailable : Unavailable status) (hok : election.ok = true) :
      Course sound myPaxosAddress (.forwarding (some election) stub')
        [.forward stub, .forwarded status, .elected election, .forward stub']
  | answeredAgain {stub stub' : Addr} {status election status' : Status} {answer : Answer}
      (hunavailable : Unavailable status) (hok : election.ok = true)
      (hanswer : answer.status.ok = status'.ok) :
      Course sound myPaxosAddress (.returned answer)
        [.forward stub, .forwarded status, .elected election, .forward stub',
          .forwarded status']

/-- The flow has found a coordinator. -/
def Found (flow : Flow) : Prop := flow.phase = .fetching none ∨ flow.trace ≠ []

section Step

variable {sound : Prop} {map : PaxosStubsMap} {myPaxosAddress address : Addr}
  {outcome : Answer} {flow flow' : Flow}

theorem course_lookedUp_none {stub : Option Addr} (htrace : flow.trace = []) :
    Course sound myPaxosAddress (flow.lookedUp none stub).phase
      (flow.lookedUp none stub).trace := by
  cases stub with
  | none =>
    show Course _ _ (.returned _) flow.trace
    rw [htrace]
    exact .notSet rfl
  | some addr =>
    show Course _ _ (.forwarding none addr) (flow.trace ++ [.forward addr])
    rw [htrace]
    exact .forwarding

/-- After an election the flow forwards again only if the election was won. -/
theorem course_lookedUp_some {own : Option Addr} {stub : Addr} {status election : Status}
    (hunavailable : Unavailable status) (hown : sound → own ≠ none)
    (htrace : flow.trace = [.forward stub, .forwarded status, .elected election]) :
    Course sound myPaxosAddress (flow.lookedUp (some election) own).phase
      (flow.lookedUp (some election) own).trace := by
  cases hok : election.ok with
  | true =>
    cases own with
    | none =>
      simp only [lookedUp, hok, if_true, htrace]
      exact .failed hunavailable fun hsound => absurd rfl (hown hsound)
    | some addr =>
      simp only [lookedUp, hok, if_true, forward, htrace]
      exact .forwardingAgain hunavailable hok
  | false =>
    simp only [lookedUp, hok, Bool.false_eq_true, if_false, htrace]
    exact .failed hunavailable fun _ => hok

/-- One step of a flow. -/
theorem course_step (hown : sound → map.getStub address = some myPaxosAddress)
    (hlisted : sound → flow.Found → map.coordinator ∈ map.stubs.addrs)
    (hcourse : Course sound myPaxosAddress flow.phase flow.trace)
    (hstep : flow.step map address outcome = some flow') :
    Course sound myPaxosAddress flow'.phase flow'.trace := by
  obtain ⟨phase, trace⟩ := flow
  dsimp only at hcourse
  cases hcourse with
  | first hphase =>
    rcases hphase with rfl | rfl
    · dsimp only [step] at hstep
      split at hstep
      · cases hstep
        exact .first (Or.inr rfl)
      · cases hstep
        exact course_lookedUp_none rfl
    · cases hstep
      exact course_lookedUp_none rfl
  | notSet hnot => cases hstep
  | forwarding =>
    dsimp only [step] at hstep
    split at hstep
    · rename_i hunavailable
      cases hstep
      exact .electing hunavailable
    · cases hstep
      exact .answered
  | answered => cases hstep
  | electing hunavailable =>
    cases hstep
    exact .nominating hunavailable hown
  | @nominating own _ _ hunavailable hown' =>
    cases own with
    | none =>
      cases hstep
      exact .crashed hunavailable fun hsound => by cases hown' hsound
    | some stub =>
      cases hstep
      exact .elected hunavailable (Or.inl rfl)
  | crashed hunavailable hunsound => cases hstep
  | elected hunavailable hphase =>
    have hcoordinator : sound → map.coordinator ∈ map.stubs.addrs :=
      fun hsound => hlisted hsound (Or.inr (List.cons_ne_nil _ _))
    rcases hphase with rfl | rfl
    · dsimp only [step] at hstep
      split at hstep
      · cases hstep
        exact .elected hunavailable (Or.inr rfl)
      · rename_i hunlisted
        cases hstep
        exact course_lookedUp_some hunavailable
          (fun hsound => absurd (hcoordinator hsound) hunlisted) rfl
    · cases hstep
      refine course_lookedUp_some hunavailable (fun hsound hnone => ?_) rfl
      rw [PaxosStubsMap.getCoordinatorStub, if_pos (hcoordinator hsound)] at hnone
      cases hnone
  | failed hunavailable hanswer => cases hstep
  | forwardingAgain hunavailable hok =>
    dsimp only [step] at hstep
    split at hstep
    · cases hstep
      exact .answeredAgain hunavailable hok rfl
    · cases hstep
      exact .answeredAgain hunavailable hok rfl
  | answeredAgain hunavailable hok hanswer => cases hstep

/-- A flow finds a coordinator only when there is one. -/
theorem found_step (hcourse : Course sound myPaxosAddress flow.phase flow.trace)
    (hlisted : flow.Found → map.coordinator ∈ map.stubs.addrs)
    (hstep : flow.step map myPaxosAddress outcome = some flow') (hfound : flow'.Found) :
    map.coordinator ∈ map.stubs.addrs := by
  obtain ⟨phase, trace⟩ := flow
  dsimp only at hcourse
  cases hcourse with
  | first hphase =>
    rcases hphase with rfl | rfl
    · dsimp only [step] at hstep
      split at hstep
      · assumption
      · cases hstep
        rcases hfound with hphase | htrace
        · cases hphase
        · exact absurd rfl htrace
    · exact hlisted (Or.inl rfl)
  | notSet hnot => cases hstep
  | _ => exact hlisted (Or.inr (List.cons_ne_nil _ _))

end Step

end Flow

/-! ## The answer to the client -/

namespace FrontEnd

/-- The stubs map stays what it has to be, and once the flow has found a
coordinator there is one. -/
structure Inv (myPaxosAddress : Addr) (s : FrontEnd) : Prop where
  mine : myPaxosAddress ∈ s.map.stubs.addrs
  empty : "" ∉ s.map.stubs.addrs
  course : Flow.Course True myPaxosAddress s.flow.phase s.flow.trace
  listed : s.flow.Found → s.map.coordinator ∈ s.map.stubs.addrs

variable {myPaxosAddress : Addr} {s s' : FrontEnd} {act : FrontEndAction}

theorem getStub_mine {map : PaxosStubsMap} (hmine : myPaxosAddress ∈ map.stubs.addrs)
    (hempty : "" ∉ map.stubs.addrs) : map.getStub myPaxosAddress = some myPaxosAddress :=
  if_neg fun h => h.elim (fun heq => hempty (heq ▸ hmine)) fun h => h hmine

theorem inv_init (h : (frontEnd myPaxosAddress).isInitial s) : s.Inv myPaxosAddress := by
  obtain ⟨hmine, hempty, hflow⟩ := h
  refine ⟨hmine, hempty, ?_, fun hfound => ?_⟩
  · rw [hflow]
    exact .first (Or.inl rfl)
  · rw [hflow] at hfound
    rcases hfound with hphase | htrace
    · cases hphase
    · exact absurd rfl htrace

theorem inv_step (hinv : s.Inv myPaxosAddress)
    (hstep : (frontEnd myPaxosAddress).step s act = some s') : s'.Inv myPaxosAddress := by
  cases act with
  | step outcome =>
    obtain ⟨flow, hflow, rfl⟩ := Option.map_eq_some_iff.mp hstep
    exact
      { mine := hinv.mine
        empty := hinv.empty
        course :=
          Flow.course_step (fun _ => getStub_mine hinv.mine hinv.empty) (fun _ => hinv.listed)
            hinv.course hflow
        listed := Flow.found_step hinv.course hinv.listed hflow }
  | setCoordinator coordinator =>
    cases hstep
    refine ⟨?_, ?_, hinv.course, fun hfound => ?_⟩
    · rw [PaxosStubsMap.stubs_setCoordinator]
      exact hinv.mine
    · rw [PaxosStubsMap.stubs_setCoordinator]
      exact hinv.empty
    · rw [PaxosStubsMap.stubs_setCoordinator, PaxosStubsMap.coordinator_setCoordinator]
      split
      · assumption
      · exact hinv.listed hfound

theorem inv_reachable (h : (frontEnd myPaxosAddress).Reachable (fun _ _ => True) s) :
    s.Inv myPaxosAddress :=
  h.invariant (fun _ => inv_init) fun _ _ _ _ _ hstep hinv => inv_step hinv hstep

end FrontEnd

namespace Flow

/-- The forwards of a flow. -/
def forwards (trace : List FlowEvent) : List Addr := trace.filterMap FlowEvent.forward?

/-- What the last forward returned. -/
def lastForwarded (trace : List FlowEvent) : Option Status :=
  (trace.filterMap FlowEvent.forwarded?).getLast?

/-- Before a second forward stand one that was not answered and an election
that was won. -/
def Retries (before : List FlowEvent) : Prop :=
  ∃ stub status election, before = [.forward stub, .forwarded status, .elected election] ∧
    Unavailable status ∧ election.ok = true

variable {sound : Prop} {myPaxosAddress : Addr} {phase : FlowPhase} {trace : List FlowEvent}

theorem ok_iff_of_last {answer : Answer} {status : Status}
    (hlast : lastForwarded trace = some status) (hsame : answer.status.ok = status.ok) :
    answer.status.ok = true ↔
      ∃ status, lastForwarded trace = some status ∧ status.ok = true := by
  rw [hsame]
  constructor
  · exact fun hok => ⟨status, hlast, hok⟩
  · rintro ⟨status', hlast', hok⟩
    cases hlast.symm.trans hlast'
    exact hok

/-- The answer is OK when the last forward was. -/
theorem Course.ok_iff (hsound : sound) {answer : Answer}
    (h : Course sound myPaxosAddress (.returned answer) trace) :
    answer.status.ok = true ↔
      ∃ status, lastForwarded trace = some status ∧ status.ok = true := by
  cases h with
  | first hphase => rcases hphase with hphase | hphase <;> cases hphase
  | notSet hnot => simp [hnot, lastForwarded]
  | answered => exact ok_iff_of_last rfl rfl
  | elected hunavailable hphase => rcases hphase with hphase | hphase <;> cases hphase
  | @failed _ status _ _ hunavailable hanswer =>
    have hstatus : status.ok = false := by
      rcases hunavailable with hcode | hcode <;> simp [Status.ok, hcode]
    exact ok_iff_of_last rfl ((hanswer hsound).trans hstatus.symm)
  | answeredAgain hunavailable hok hanswer => exact ok_iff_of_last rfl hanswer

/-- A flow forwards twice at the most. -/
theorem Course.forwards_le (h : Course sound myPaxosAddress phase trace) :
    (forwards trace).length ≤ 2 := by
  cases h <;> exact Nat.le_of_ble_eq_true rfl

/-- What stands before a forward. -/
theorem Course.before_forward (h : Course sound myPaxosAddress phase trace)
    {before after : List FlowEvent} {stub : Addr}
    (htrace : trace = before ++ .forward stub :: after) : before = [] ∨ Retries before := by
  have hlength : trace.length ≤ 5 := by cases h <;> exact Nat.le_of_ble_eq_true rfl
  rcases before with _ | ⟨_, _ | ⟨_, _ | ⟨_, _ | ⟨_, _ | ⟨_, before⟩⟩⟩⟩⟩
  · exact Or.inl rfl
  · cases h <;> cases htrace
  · cases h <;> cases htrace
  · cases h with
    | forwardingAgain hunavailable hok =>
      cases htrace
      exact Or.inr ⟨_, _, _, rfl, hunavailable, hok⟩
    | answeredAgain hunavailable hok hanswer =>
      cases htrace
      exact Or.inr ⟨_, _, _, rfl, hunavailable, hok⟩
    | _ => cases htrace
  · cases h <;> cases htrace
  · rw [htrace] at hlength
    simp only [List.length_append, List.length_cons] at hlength
    omega

/-- After an election there is a coordinator. -/
theorem Course.found_of_election {flow : Flow}
    (h : Course sound myPaxosAddress flow.phase flow.trace) {election : Status}
    (hphase : flow.phase = .finding (some election) ∨ flow.phase = .fetching (some election)) :
    flow.Found := by
  obtain ⟨phase, trace⟩ := flow
  refine Or.inr ?_
  dsimp only at h hphase
  cases h with
  | first hfirst =>
    rcases hphase with rfl | rfl <;> rcases hfirst with hfirst | hfirst <;> cases hfirst
  | notSet hnot => rcases hphase with hphase | hphase <;> cases hphase
  | _ => exact List.cons_ne_nil _ _

theorem Course.not_crashed (hsound : sound) (h : Course sound myPaxosAddress .crashed trace) :
    False := by
  cases h with
  | first hphase => rcases hphase with hphase | hphase <;> cases hphase
  | crashed hunavailable hunsound => exact hunsound hsound
  | elected hunavailable hphase => rcases hphase with hphase | hphase <;> cases hphase

end Flow

/-- A client is told OK only for a request that was forwarded last to a server
that returned OK, and always then.  A flow forwards at most twice, the second
time after an election that was won.  The stub that it looks for after an
election is there, and so is the stub of its own server. -/
theorem requestFlow_ok_iff_forwarded {myPaxosAddress : Addr} {s : FrontEnd}
    (h : (frontEnd myPaxosAddress).Reachable (fun _ _ => True) s) :
    (∀ answer, s.flow.phase = .returned answer →
      (answer.status.ok = true ↔
        ∃ status, Flow.lastForwarded s.flow.trace = some status ∧ status.ok = true)) ∧
    (Flow.forwards s.flow.trace).length ≤ 2 ∧
    (∀ before stub after, s.flow.trace = before ++ .forward stub :: after →
      before = [] ∨ Flow.Retries before) ∧
    (∀ election,
      s.flow.phase = .finding (some election) ∨ s.flow.phase = .fetching (some election) →
        s.map.getCoordinatorStub ≠ none) ∧
    s.flow.phase ≠ .crashed := by
  have hinv := FrontEnd.inv_reachable h
  have hcourse := hinv.course
  refine ⟨fun answer hphase => ?_, hcourse.forwards_le,
    fun before stub after => hcourse.before_forward, fun election hphase hnone => ?_,
    fun hphase => ?_⟩
  · rw [hphase] at hcourse
    exact hcourse.ok_iff trivial
  · have hlisted := hinv.listed (hcourse.found_of_election hphase)
    rw [PaxosStubsMap.getCoordinatorStub, if_pos hlisted] at hnone
    cases hnone
  · rw [hphase] at hcourse
    exact hcourse.not_crashed trivial

namespace FrontEnd

/-- The server "b" of a cluster whose coordinator is "a". -/
def standby : FrontEnd where
  map := { stubs := .ofReplicas ["a", "b"], coordinator := "a" }

/-- The coordinator does not answer, "b" is elected and answers. -/
def retry : List FrontEndAction :=
  let unavailable : FrontEndAction := .step { status := { code := .unavailable } }
  let ok : FrontEndAction := .step { status := .OK }
  [ok, ok, unavailable, ok, .setCoordinator "c", .setCoordinator "b", ok, ok, ok, ok]

end FrontEnd

theorem requestFlow_ok_iff_forwarded_retry : ∃ s,
    (frontEnd "b").Reachable (fun _ _ => True) s ∧ s.flow.phase = .returned { status := .OK } ∧
      ∃ status, Flow.lastForwarded s.flow.trace = some status ∧ status.ok = true := by
  have hrun : ∃ s ∈ (frontEnd "b").execWhere (fun _ _ => True) FrontEnd.standby FrontEnd.retry,
      s.flow.phase = .returned { status := .OK } := by
    decide
  have hinit : (frontEnd "b").isInitial FrontEnd.standby := ⟨by decide, by decide, rfl⟩
  obtain ⟨s, hreach, hphase⟩ := ActionSystem.exists_reachable_of_execWhere hinit hrun
  exact ⟨s, hreach, hphase, ((requestFlow_ok_iff_forwarded hreach).1 _ hphase).mp rfl⟩

/-! ## A flow that is not interrupted -/

/-- What a server looks like to its request flow after at most one call of
`SetCoordinator`. -/
def MultiPaxosServiceImpl.Sets (s s' : MultiPaxosServiceImpl) : Prop :=
  s'.myPaxosAddress = s.myPaxosAddress ∧
    (s'.paxosStubsMap = s.paxosStubsMap ∨
      ∃ coordinator, s'.paxosStubsMap = (s.paxosStubsMap.setCoordinator coordinator).2)

namespace Servers

open MultiPaxosServiceImpl (Sets)

theorem sets_refl (s : MultiPaxosServiceImpl) : Sets s s := ⟨rfl, Or.inl rfl⟩

theorem sets_of_affected {key : String} {r : Int} {s s' : MultiPaxosServiceImpl} {logged : Prop}
    {accepted : Option AcceptResponse} {executed : Option Operation}
    (h : Affected key r s s' logged accepted executed) : Sets s s' := by
  refine ⟨h.address, ?_⟩
  have hstubs := h.stubs
  have hcoordinator := h.coordinator
  generalize s.paxosStubsMap = map at hstubs hcoordinator ⊢
  generalize s'.paxosStubsMap = map' at hstubs hcoordinator ⊢
  obtain ⟨stubs, coordinator⟩ := map
  obtain ⟨stubs', coordinator'⟩ := map'
  cases hstubs
  cases hcoordinator
  cases executed with
  | none => exact Or.inl rfl
  | some op =>
    by_cases hset : op.type = .setCoordinator ∧ op.value ∈ stubs.addrs
    · refine Or.inr ⟨op.value, ?_⟩
      rw [PaxosStubsMap.setCoordinator, if_pos hset.2]
      exact congrArg (PaxosStubsMap.mk stubs) (if_pos hset)
    · exact Or.inl (congrArg (PaxosStubsMap.mk stubs) (if_neg hset))

section Calls

variable {servers servers' : Servers} {server : Addr}

theorem sets_of_runPaxos (o : Outcomes) (servers : Servers) (caller : Addr) (request : Request)
    (server : Addr) : Sets (servers server) ((runPaxos o servers caller request).2 server) :=
  sets_of_affected (Reference.affected_runPaxos o servers caller request server)

theorem sets_of_update (o : Outcomes) (servers : Servers) (callee : Addr) (request : Request)
    (server : Addr) : Sets (servers server) ((servers.update o callee request).2 server) := by
  unfold update
  split
  · exact sets_refl _
  · exact sets_of_runPaxos o servers callee request server

theorem sets_of_forward {reach : Addr → Bool} {randomFail : Message → Addr → Bool}
    {coordinator : Addr} {request : ClientRequest} {answer : Answer}
    (h : servers.forwardToCoordinator reach randomFail coordinator request = (answer, servers')) :
    Sets (servers server) (servers' server) := by
  unfold forwardToCoordinator at h
  split at h
  · cases request with
    | get key =>
      cases h
      exact sets_refl _
    | put key value =>
      cases h
      exact sets_of_update _ servers coordinator (.put key value) server
    | delete key =>
      cases h
      exact sets_of_update _ servers coordinator (.delete key) server
  · cases h
    exact sets_refl _

/-- An election needs the stub of the own server. -/
theorem sets_of_election {e : StartUp} {status : Status}
    (h : servers.electNewCoordinator e server = some (status, servers')) :
    Sets (servers server) (servers' server) ∧
      ∃ stub, (servers server).paxosStubsMap.getStub (servers server).myPaxosAddress =
        some stub := by
  unfold electNewCoordinator at h
  dsimp only at h
  split at h
  · cases h
  · rename_i stub hstub
    refine ⟨?_, stub, hstub⟩
    split at h
    · cases h
      exact sets_of_runPaxos ..
    · cases h
      exact sets_refl _
    · cases h
      exact sets_of_runPaxos ..

end Calls

section Run

variable {start : FrontEnd} {s s' : MultiPaxosServiceImpl} {flow flow' : Flow}

/-- The flow of a server comes to a state. -/
def Comes (start : FrontEnd) (s : MultiPaxosServiceImpl) (flow : Flow) : Prop :=
  ((frontEnd s.myPaxosAddress).startingAt start).Reachable (fun _ _ => True)
    { map := s.paxosStubsMap, flow := flow }

/-- A step of the flow, with what the call does to the server in the meantime. -/
theorem comes_step (outcome : Answer) (h : Comes start s flow)
    (hstep : flow.step s.paxosStubsMap s.myPaxosAddress outcome = some flow')
    (hsets : Sets s s') : Comes start s' flow' := by
  obtain ⟨haddress, hmap⟩ := hsets
  unfold Comes at h ⊢
  rw [haddress]
  have hnext : ((frontEnd s.myPaxosAddress).startingAt start).Reachable (fun _ _ => True)
      { map := s.paxosStubsMap, flow := flow' } := by
    have hflow : ((frontEnd s.myPaxosAddress).startingAt start).step
        { map := s.paxosStubsMap, flow := flow } (.step outcome) =
          some { map := s.paxosStubsMap, flow := flow' } := by
      show Option.map _ (flow.step s.paxosStubsMap s.myPaxosAddress outcome) = _
      rw [hstep]
      rfl
    exact h.next trivial hflow
  rcases hmap with hmap | ⟨coordinator, hmap⟩
  · rw [hmap]
    exact hnext
  · rw [hmap]
    have hset : ((frontEnd s.myPaxosAddress).startingAt start).step
        { map := s.paxosStubsMap, flow := flow' } (.setCoordinator coordinator) =
          some { map := (s.paxosStubsMap.setCoordinator coordinator).2, flow := flow' } := rfl
    exact hnext.next trivial hset

/-- `GetCoordinatorStub` without an interruption. -/
theorem comes_lookedUp {election : Option Status} {trace : List FlowEvent}
    (h : Comes start s { phase := .finding election, trace := trace }) :
    ∃ flow : Flow,
      Comes start s (flow.lookedUp election s.paxosStubsMap.getCoordinatorStub) := by
  by_cases hlisted : s.paxosStubsMap.coordinator ∈ s.paxosStubsMap.stubs.addrs
  · have hfetching := comes_step { status := .OK } h (if_pos hlisted) (sets_refl s)
    exact ⟨_, comes_step { status := .OK } hfetching rfl (sets_refl s)⟩
  · refine ⟨{ phase := .finding election, trace := trace },
      comes_step { status := .OK } h ?_ (sets_refl s)⟩
    rw [PaxosStubsMap.getCoordinatorStub, if_neg hlisted]
    exact if_neg hlisted

/-- `requestFlow` is a run of `frontEnd` in which only the handlers of its
calls call `SetCoordinator`. -/
theorem requestFlow_comes {servers servers' : Servers} {reach : Addr → Bool}
    {randomFail : Message → Addr → Bool} {server : Addr} {request : ClientRequest}
    {answer : Answer}
    (h : servers.requestFlow reach randomFail server request = some (answer, servers')) :
    ∃ trace, Comes { map := (servers server).paxosStubsMap } (servers' server)
      { phase := .returned answer, trace := trace } := by
  have hstart : Comes { map := (servers server).paxosStubsMap } (servers server) {} := .start rfl
  obtain ⟨flow, hlooked⟩ := comes_lookedUp hstart
  unfold requestFlow at h
  split at h
  · rename_i hnone
    cases h
    rw [hnone] at hlooked
    exact ⟨_, hlooked⟩
  · rename_i coordinator hcoordinator
    rw [hcoordinator] at hlooked
    generalize hforwarded : servers.forwardToCoordinator reach randomFail coordinator request =
      result at h
    obtain ⟨forwarded, servers₁⟩ := result
    dsimp only at h
    split at h
    · rename_i hunavailable
      split at h
      · cases h
      · rename_i electionStatus servers₂ helection
        obtain ⟨helects, stub, hstub⟩ := sets_of_election helection
        have helecting := comes_step forwarded hlooked (if_pos hunavailable)
          (sets_of_forward hforwarded)
        have hnominating := comes_step forwarded helecting rfl (sets_refl _)
        rw [hstub] at hnominating
        have hfinding := comes_step { status := electionStatus } hnominating rfl helects
        obtain ⟨flow', hlooked'⟩ := comes_lookedUp hfinding
        simp only [Flow.lookedUp] at hlooked'
        split at h
        · rename_i hok
          rw [if_pos hok] at hlooked'
          split at h
          · rename_i hnone
            cases h
            rw [hnone] at hlooked'
            exact ⟨_, hlooked'⟩
          · rename_i coordinator' hcoordinator'
            rw [hcoordinator'] at hlooked'
            generalize hagain : servers₂.forwardToCoordinator reach randomFail coordinator'
              request = result at h
            obtain ⟨answered, servers₃⟩ := result
            have hsets : Sets (servers₂ server) (servers₃ server) := sets_of_forward hagain
            dsimp only at h
            split at h
            · rename_i hanswered
              cases h
              exact ⟨_, comes_step _ hlooked' (if_pos hanswered) hsets⟩
            · rename_i hanswered
              cases h
              exact ⟨_, comes_step _ hlooked' (if_neg hanswered) hsets⟩
        · rename_i hok
          rw [if_neg hok] at hlooked'
          cases h
          exact ⟨_, hlooked'⟩
    · rename_i havailable
      cases h
      exact ⟨_, comes_step answer hlooked (if_neg havailable) (sets_of_forward hforwarded)⟩

end Run

end Servers

end PaxosKVStore
