import PaxosKVStore.FrontEnd
import PaxosKVStore.Origins

/-!
# The updates that clients ask for, from their front-ends to the log

`KeyValueStore` is the cluster with the request flows of its front-ends.  A
flow waits for the forward or the election that it made last, and each of
these calls is handled by its callee at most once.  The flow may be told that
the call failed at any time, before the handler starts or while it runs, and
the handler then goes on.

The invocations of a client call are those that the handlers of its forwards
entered.  `Known` is what the flow of a call, its forwards and these
invocations have to do with each other.
-/

namespace PaxosKVStore

/-- How far the callee is with a call of a request flow. -/
inductive Handling where
  | onItsWay
  | refused (status : Status)
  | running (run : Nat)
  deriving DecidableEq, Repr

/-- A forward of a request flow, or the `ElectCoordinator` call to its own
server. -/
structure Outgoing where
  callee : Addr
  request : Request
  handling : Handling := .onItsWay
  /-- The flow was told that the call failed. -/
  failed : Bool := false
  deriving DecidableEq, Repr

/-- A `PutPair` or `DeletePair` call of a client to the front-end of `server`. -/
structure ClientCall where
  server : Addr
  request : Request
  flow : Flow := {}
  /-- The calls that the flow has made. -/
  outgoing : List Outgoing := []
  /-- The server has crashed. -/
  stopped : Bool := false
  deriving DecidableEq, Repr

structure KeyValueStore where
  cluster : Cluster
  calls : List ClientCall := []

/-- The call that a flow makes when it comes to a phase. -/
def FlowPhase.makes (request : Request) (myPaxosAddress : Addr) : FlowPhase → List Outgoing
  | .forwarding _ stub => [{ callee := stub, request := request }]
  | .nominating (some stub) =>
      [{ callee := stub, request := .electCoordinator "coordinator" myPaxosAddress }]
  | _ => []

/-- A flow waits for a call. -/
def FlowPhase.Waits : FlowPhase → Prop
  | .forwarding _ _ => True
  | .nominating (some _) => True
  | _ => False

instance (phase : FlowPhase) : Decidable phase.Waits :=
  match phase with
  | .finding _ => isFalse id
  | .fetching _ => isFalse id
  | .forwarding _ _ => isTrue trivial
  | .electing => isFalse id
  | .nominating none => isFalse id
  | .nominating (some _) => isTrue trivial
  | .returned _ => isFalse id
  | .crashed => isFalse id

namespace Outgoing

/-- The invocation of the handler. -/
def run (out : Outgoing) : Option Nat :=
  match out.handling with
  | .running run => some run
  | _ => none

/-- What the handler has answered. -/
def answer (out : Outgoing) (σ : System) : Option Status :=
  match out.handling with
  | .onItsWay => none
  | .refused status => some status
  | .running run =>
      match σ.runs[run]?.map Invocation.phase with
      | some (.returned status) => some status
      | _ => none

/-- The call arrives at its callee. -/
def arrival (out : Outgoing) (server : Addr) (context : ServerContext) : Cluster.Action :=
  match out.request with
  | .electCoordinator _ _ => .electNewCoordinator server context
  | request => .paxos (.start out.callee request context)

/-- The call when its handler has started, as the invocation `run` unless it
was refused. -/
def handled (out : Outgoing) (context : ServerContext) (run : Nat) : Outgoing :=
  { out with
    handling :=
      match out.request.refusal context with
      | some status => .refused status
      | none => .running run }

end Outgoing

namespace ClientCall

/-- The flow makes a step. -/
def go (call : ClientCall) (s : MultiPaxosServiceImpl) (outcome : Answer) : Option ClientCall :=
  (call.flow.step s.paxosStubsMap s.myPaxosAddress outcome).map fun flow =>
    { call with
      flow := flow
      outgoing := call.outgoing ++ flow.phase.makes call.request s.myPaxosAddress }

/-- The flow is told that the call failed that it waits for. -/
def giveUp (call : ClientCall) : ClientCall :=
  { call with
    outgoing := call.outgoing.dropLast ++
      (call.outgoing.getLast?.map fun out => { out with failed := true }).toList }

/-- The forwards, without the election. -/
def forwarded (call : ClientCall) : List Outgoing :=
  call.outgoing.filter fun out => out.request.IsUpdate

/-- The invocations of `RunPaxos` on behalf of the call. -/
def invocations (call : ClientCall) : List Nat := call.forwarded.filterMap Outgoing.run

end ClientCall

namespace KeyValueStore

inductive Action where
  /-- A step that no client call makes. -/
  | cluster (act : Cluster.Action)
  /-- A client calls the front-end of `server`. -/
  | request (server : Addr) (request : Request)
  /-- The flow of a call goes on. -/
  | step (call : Nat)
  /-- A call of the flow arrives. -/
  | arrive (call out : Nat) (context : ServerContext := {})
  /-- The flow gets the answer that it waits for. -/
  | answer (call : Nat)
  /-- The flow is told that the call failed that it waits for. -/
  | fail (call : Nat) (status : Status)
  deriving DecidableEq, Repr

/-- An update starts for a client call only.  The flow of a `GetPair` call may
ask for an election. -/
def Own : Cluster.Action → Prop
  | .paxos (.start ..) => False
  | _ => True

instance : ∀ act, Decidable (Own act)
  | .paxos (.start ..) => isFalse id
  | .paxos (.call ..) => isTrue trivial
  | .paxos (.advance _) => isTrue trivial
  | .paxos (.arrive ..) => isTrue trivial
  | .electNewCoordinator .. => isTrue trivial
  | .initializeServer .. => isTrue trivial
  | .crash _ => isTrue trivial

/-- A crash stops the flows of the server. -/
def stopOn (act : Cluster.Action) (call : ClientCall) : ClientCall :=
  if act = .crash call.server then { call with stopped := true } else call

def setCall (s : KeyValueStore) (i : Nat) (call : ClientCall) : KeyValueStore :=
  { s with calls := s.calls.set i call }

def step (s : KeyValueStore) : Action → Option KeyValueStore
  | .cluster act =>
      if Own act then
        (s.cluster.step act).map fun c =>
          { cluster := c, calls := s.calls.map (stopOn act) }
      else none
  | .request server request =>
      if request.IsUpdate then
        some { s with calls := s.calls ++ [{ server := server, request := request }] }
      else none
  | .step i =>
      match s.calls[i]? with
      | none => none
      | some call =>
          if call.stopped = true ∨ call.flow.phase.Waits then none
          else
            (call.go (s.cluster.system.servers call.server) { status := .OK }).map (s.setCall i)
  | .arrive i j context =>
      match s.calls[i]? with
      | none => none
      | some call =>
          match call.outgoing[j]? with
          | none => none
          | some out =>
              if out.handling = .onItsWay then
                (s.cluster.step (out.arrival call.server context)).map fun c =>
                  { s with cluster := c }.setCall i
                    { call with
                      outgoing := call.outgoing.set j
                        (out.handled context s.cluster.system.runs.length) }
              else none
  | .answer i =>
      match s.calls[i]? with
      | none => none
      | some call =>
          if call.stopped = true ∨ ¬ call.flow.phase.Waits then none
          else
            match call.outgoing.getLast?.bind fun out => out.answer s.cluster.system with
            | none => none
            | some status =>
                (call.go (s.cluster.system.servers call.server) { status := status }).map
                  (s.setCall i)
  | .fail i status =>
      match s.calls[i]? with
      | none => none
      | some call =>
          if call.stopped = true ∨ ¬ call.flow.phase.Waits ∨ status.ok = true then none
          else
            (call.giveUp.go (s.cluster.system.servers call.server) { status := status }).map
              (s.setCall i)

end KeyValueStore

/-- All runs of the clients' calls. -/
def keyValueStore (setup : System → Prop) :
    ActionSystem KeyValueStore KeyValueStore.Action where
  isInitial s := (cluster setup).isInitial s.cluster ∧ s.calls = []
  step := KeyValueStore.step

/-! ## What a flow has asked for -/

/-- A forward that was made, or an election that was asked for and returned. -/
def FlowEvent.made? : FlowEvent → Option Bool
  | .forward _ => some true
  | .forwarded _ => none
  | .elected _ => some false

namespace Flow

/-- The calls of a flow in order, with `true` for a forward. -/
def made (flow : Flow) : List Bool :=
  flow.trace.filterMap FlowEvent.made? ++
    match flow.phase with
    | .nominating (some _) => [false]
    | _ => []

/-- A step of a flow: it makes a call, hears of one, or only goes on. -/
inductive Moves (flow : Flow) (outcome : Status) : Flow → Prop where
  | goOn {phase : FlowPhase} (hwaits : ¬ flow.phase.Waits) (hwaits' : ¬ phase.Waits) :
      Moves flow outcome { flow with phase := phase }
  | forward (election : Option Status) (stub : Addr) (hwaits : ¬ flow.phase.Waits) :
      Moves flow outcome (flow.forward election stub)
  | nominate (own : Addr) (hphase : flow.phase = .electing) :
      Moves flow outcome { flow with phase := .nominating (some own) }
  | forwarded {election : Option Status} {stub : Addr} {phase : FlowPhase}
      (hphase : flow.phase = .forwarding election stub) (hwaits' : ¬ phase.Waits) :
      Moves flow outcome { phase := phase, trace := flow.trace ++ [.forwarded outcome] }
  | elected {own : Addr} (hphase : flow.phase = .nominating (some own)) :
      Moves flow outcome
        { phase := .finding (some outcome), trace := flow.trace ++ [.elected outcome] }

section Moves

variable {map : PaxosStubsMap} {myPaxosAddress : Addr} {outcome : Answer} {status : Status}
  {flow flow' : Flow}

theorem moves_lookedUp (hwaits : ¬ flow.phase.Waits) (election : Option Status)
    (stub : Option Addr) : flow.Moves status (flow.lookedUp election stub) := by
  cases election with
  | none =>
    cases stub with
    | none => exact .goOn hwaits id
    | some addr => exact .forward none addr hwaits
  | some election =>
    unfold lookedUp
    dsimp only
    split
    · cases stub with
      | none => exact .goOn hwaits id
      | some addr => exact .forward _ addr hwaits
    · exact .goOn hwaits id

theorem moves_of_step (h : flow.step map myPaxosAddress outcome = some flow') :
    flow.Moves outcome.status flow' := by
  unfold step at h
  split at h
  · rename_i hphase
    have hwaits : ¬ flow.phase.Waits := by rw [hphase]; exact id
    split at h
    · cases h
      exact .goOn hwaits id
    · cases h
      exact moves_lookedUp hwaits _ _
  · rename_i hphase
    have hwaits : ¬ flow.phase.Waits := by rw [hphase]; exact id
    cases h
    exact moves_lookedUp hwaits _ _
  · rename_i hphase
    dsimp only at h
    split at h
    · split at h
      · cases h
        exact .forwarded hphase id
      · cases h
        exact .forwarded hphase id
    · split at h
      · cases h
        exact .forwarded hphase id
      · cases h
        exact .forwarded hphase id
  · rename_i hphase
    cases h
    cases map.getStub myPaxosAddress with
    | none => exact .goOn (by rw [hphase]; exact id) id
    | some own => exact .nominate own hphase
  · rename_i hphase
    cases h
    exact .goOn (by rw [hphase]; exact id) id
  · rename_i hphase
    cases h
    exact .elected hphase
  · cases h
  · cases h

end Moves

/-- The status of the first forward was there before, or it arrives now. -/
theorem Moves.first_cases {flow flow' : Flow} {outcome : Status} (h : flow.Moves outcome flow')
    {stub : Addr} {status : Status} {rest : List FlowEvent}
    (htrace : flow'.trace = .forward stub :: .forwarded status :: rest) :
    (∃ rest', flow.trace = .forward stub :: .forwarded status :: rest') ∨
      (flow.trace = [.forward stub] ∧ status = outcome ∧
        ∃ election stub', flow.phase = .forwarding election stub') := by
  obtain ⟨phase, trace⟩ := flow
  -- an event that is appended to two others does not change them
  have happend : ∀ {event : FlowEvent}, (∀ status, event ≠ .forwarded status) →
      trace ++ [event] = .forward stub :: .forwarded status :: rest →
      ∃ rest', trace = .forward stub :: .forwarded status :: rest' := by
    intro event hevent heq
    match trace, heq with
    | [], heq => cases heq
    | [first], heq =>
      cases heq
      exact absurd rfl (hevent status)
    | first :: second :: others, heq =>
      cases heq
      exact ⟨others, rfl⟩
  cases h with
  | goOn hwaits hwaits' => exact Or.inl ⟨rest, htrace⟩
  | forward election stub' hwaits =>
    exact Or.inl (happend (fun status heq => by cases heq) htrace)
  | nominate own hphase => exact Or.inl ⟨rest, htrace⟩
  | @forwarded election stub' phase' hphase hwaits' =>
    cases hphase
    match trace, htrace with
    | [], htrace => cases htrace
    | [first], htrace =>
      cases htrace
      exact Or.inr ⟨rfl, rfl, election, stub', rfl⟩
    | first :: second :: others, htrace =>
      cases htrace
      exact Or.inl ⟨others, rfl⟩
  | elected hphase => exact Or.inl (happend (fun status heq => by cases heq) htrace)

theorem made_of_not_waits {phase : FlowPhase} (h : ¬ phase.Waits) (trace : List FlowEvent) :
    ({ phase := phase, trace := trace } : Flow).made = trace.filterMap FlowEvent.made? := by
  unfold made
  dsimp only
  split
  · exact absurd trivial h
  · exact List.append_nil _

theorem makes_of_not_waits {phase : FlowPhase} (h : ¬ phase.Waits) (request : Request)
    (myPaxosAddress : Addr) : phase.makes request myPaxosAddress = [] := by
  unfold FlowPhase.makes
  split
  · exact absurd trivial h
  · exact absurd trivial h
  · rfl

/-- The calls that a step makes are those that the flow makes at its new phase. -/
theorem Moves.made_eq {flow flow' : Flow} {status : Status} (h : flow.Moves status flow')
    {request : Request} (hupdate : request.IsUpdate) (myPaxosAddress : Addr) :
    flow'.made = flow.made ++
      (flow'.phase.makes request myPaxosAddress).map fun out => decide out.request.IsUpdate := by
  obtain ⟨phase, trace⟩ := flow
  cases h with
  | goOn hwaits hwaits' =>
    rw [made_of_not_waits hwaits, made_of_not_waits hwaits', makes_of_not_waits hwaits',
      List.map_nil, List.append_nil]
  | forward election stub hwaits =>
    rw [made_of_not_waits hwaits]
    simp [made, Flow.forward, FlowPhase.makes, FlowEvent.made?, hupdate]
  | nominate own hphase =>
    cases hphase
    simp only [made, FlowPhase.makes, List.append_nil, List.map_cons, List.map_nil]
    rfl
  | forwarded hphase hwaits' =>
    cases hphase
    rw [made_of_not_waits hwaits', makes_of_not_waits hwaits']
    simp [made, FlowEvent.made?]
  | elected hphase =>
    cases hphase
    simp [made, FlowPhase.makes, FlowEvent.made?]

end Flow

/-! ## What is known of a call -/

/-- What the invocations return does not make a flow elect a new coordinator. -/
def System.AnswersFinally (σ : System) : Prop :=
  ∀ (i : Nat) (inv : Invocation) (status : Status), σ.runs[i]? = some inv →
    inv.phase = .returned status → ¬ Flow.Unavailable status

/-- A call of the flow of `request`, with its invocation in `σ`. -/
structure Outgoing.Known (σ : System) (request : Request) (out : Outgoing) : Prop where
  request : out.request.IsUpdate → out.request = request
  refused : ∀ status, out.handling = .refused status → ¬ Flow.Unavailable status
  running : ∀ run, out.handling = .running run →
    ∃ inv, σ.runs[run]? = some inv ∧ (out.request.IsUpdate → inv.request = out.request)

/-- A client call, with its invocations in `σ`. -/
structure ClientCall.Known (σ : System) (call : ClientCall) : Prop where
  course : Flow.Course False call.server call.flow.phase call.flow.trace
  update : call.request.IsUpdate
  made : call.outgoing.map (fun out => decide out.request.IsUpdate) = call.flow.made
  outgoing : ∀ out ∈ call.outgoing, out.Known σ call.request
  /-- A first forward after which the flow went on was given up. -/
  failed : ∀ stub status rest,
    call.flow.trace = .forward stub :: .forwarded status :: rest → Flow.Unavailable status →
      ∀ first ∈ call.outgoing.head?, first.failed = true

section Answers

/-- A handler refuses with ABORTED or CANCELLED. -/
theorem not_unavailable_of_refusal {request : Request} {context : ServerContext}
    {status : Status} (h : request.refusal context = some status) :
    ¬ Flow.Unavailable status := by
  unfold Request.refusal at h
  split at h
  · cases h
    decide
  · cases request with
    | put key value =>
      dsimp only at h
      split at h
      · cases h
        decide
      · cases h
    | delete key =>
      dsimp only at h
      split at h
      · cases h
        decide
      · cases h
    | electCoordinator key coordinator => cases h

/-- `RunPaxos` returns OK or ABORTED. -/
theorem System.answersFinally_step {σ σ' : System} {act : Action} (h : σ.AnswersFinally)
    (hstep : System.StepCases σ act σ') : σ'.AnswersFinally := by
  intro i inv status hi hphase
  cases hstep with
  | refuse hrefusal => exact h i inv status hi hphase
  | enter hrefusal =>
    rcases System.getElem?_snoc_cases hi with ⟨_, rfl⟩ | hi
    · cases hphase
    · exact h i inv status hi hphase
  | @call run inv0 receiver msg fate randomFail hrun hcall =>
    rw [System.call_runs] at hi
    rcases System.getElem?_set_cases hrun hi with ⟨_, rfl⟩ | ⟨_, hi⟩
    · have htail : inv0.phase.tail = .returned status := hphase
      cases hcall <;> rename_i hcallphase <;> rw [hcallphase] at htail <;> cases htail
    · exact h i inv status hi hphase
  | @advance run inv0 inv' hrun hadvance =>
    rw [System.noteReturn_runs] at hi
    rcases System.getElem?_set_cases hrun hi with ⟨_, rfl⟩ | ⟨_, hi⟩
    · cases hadvance with
      | startPrepare hphase' hlive => cases hphase
      | startPropose hphase' hcount => cases hphase
      | startInform hphase' hcount => cases hphase
      | done hphase' =>
        cases hphase
        decide
      | _ =>
        cases hphase
        exact fun hunavailable => by rcases hunavailable with hcode | hcode <;> cases hcode
    · exact h i inv status hi hphase
  | arrive context randomFail hindex => exact h i inv status hi hphase

end Answers

namespace Outgoing

variable {σ σ' : System} {request : Request} {out : Outgoing}

/-- The answer of a handler does not make the flow elect a new coordinator. -/
theorem Known.answer (h : out.Known σ request) (hfinal : σ.AnswersFinally) {status : Status}
    (hanswer : out.answer σ = some status) : ¬ Flow.Unavailable status := by
  unfold Outgoing.answer at hanswer
  split at hanswer
  · cases hanswer
  · rename_i hhandling
    cases hanswer
    exact h.refused status hhandling
  · rename_i run hhandling
    obtain ⟨inv, hrun, _⟩ := h.running run hhandling
    rw [hrun] at hanswer
    dsimp only [Option.map_some] at hanswer
    split at hanswer
    · rename_i hreturned
      cases hanswer
      exact hfinal run inv status hrun (Option.some.inj hreturned)
    · cases hanswer

theorem Known.continues (h : out.Known σ request) (hcont : System.Continues σ σ') :
    out.Known σ' request :=
  { h with
    running := fun run hrunning => by
      obtain ⟨inv, hrun, hrequest⟩ := h.running run hrunning
      obtain ⟨inv', hrun', hevolves⟩ := hcont run inv hrun
      exact ⟨inv', hrun', fun hupdate => hevolves.request.trans (hrequest hupdate)⟩ }

/-- A call that the flow has just made. -/
theorem known_makes {phase : FlowPhase} {myPaxosAddress : Addr}
    (hout : out ∈ phase.makes request myPaxosAddress) : out.Known σ request := by
  unfold FlowPhase.makes at hout
  split at hout
  · cases List.mem_singleton.mp hout
    exact ⟨fun _ => rfl, fun _ h => (by cases h), fun _ h => (by cases h)⟩
  · cases List.mem_singleton.mp hout
    exact ⟨fun hupdate => hupdate.elim, fun _ h => (by cases h), fun _ h => (by cases h)⟩
  · cases hout

/-- The handler refuses the call, or it enters `RunPaxos`. -/
theorem Known.handled (h : out.Known σ request) {context : ServerContext} {run : Nat}
    (hrun : out.request.refusal context = none → ∃ inv, σ.runs[run]? = some inv ∧
      (out.request.IsUpdate → inv.request = out.request)) :
    (out.handled context run).Known σ request where
  request := h.request
  refused status hrefused := by
    simp only [Outgoing.handled] at hrefused
    split at hrefused
    · rename_i hrefusal
      cases hrefused
      exact not_unavailable_of_refusal hrefusal
    · cases hrefused
  running run' hrunning := by
    simp only [Outgoing.handled] at hrunning
    split at hrunning
    · cases hrunning
    · rename_i hrefusal
      cases hrunning
      exact hrun hrefusal

end Outgoing

namespace ClientCall

variable {σ σ' : System} {call call' : ClientCall} {s : MultiPaxosServiceImpl}
  {outcome : Answer}

/-- A new client call. -/
theorem known_new {server : Addr} {request : Request} (hupdate : request.IsUpdate) :
    Known σ { server := server, request := request } where
  course := .first (Or.inl rfl)
  update := hupdate
  made := rfl
  outgoing out hout := by cases hout
  failed stub status rest htrace := by cases htrace

theorem Known.continues (h : call.Known σ) (hcont : System.Continues σ σ') : call.Known σ' :=
  { h with outgoing := fun out hout => (h.outgoing out hout).continues hcont }

theorem Known.stopOn (h : call.Known σ) (act : Cluster.Action) :
    (KeyValueStore.stopOn act call).Known σ := by
  unfold KeyValueStore.stopOn
  split
  · exact ⟨h.course, h.update, h.made, h.outgoing, h.failed⟩
  · exact h

/-- A flow whose trace is not empty has made a call. -/
theorem Known.head_append (h : call.Known σ) {stub : Addr} {rest : List FlowEvent}
    (htrace : call.flow.trace = .forward stub :: rest) (more : List Outgoing) :
    (call.outgoing ++ more).head? = call.outgoing.head? := by
  have hmade := h.made
  rw [Flow.made, htrace] at hmade
  cases hout : call.outgoing with
  | nil =>
    rw [hout] at hmade
    cases hmade
  | cons first others => rfl

/-- While it waits for its first forward, a flow has made no other call. -/
theorem Known.head_of_forwarding (h : call.Known σ) {election : Option Status}
    {stub stub' : Addr} (hphase : call.flow.phase = .forwarding election stub)
    (htrace : call.flow.trace = [.forward stub']) :
    call.outgoing.head? = call.outgoing.getLast? := by
  have hmade := h.made
  rw [Flow.made, htrace, hphase] at hmade
  have hlength := congrArg List.length hmade
  rw [List.length_map] at hlength
  obtain ⟨out, hout⟩ := List.length_eq_one_iff.mp hlength
  rw [hout]
  rfl

/-- The flow goes on.  If it hears that a forward failed, it was told so. -/
theorem Known.go (h : call.Known σ)
    (hfailed : call.flow.phase.Waits → Flow.Unavailable outcome.status →
      ∀ last ∈ call.outgoing.getLast?, last.failed = true)
    (hgo : call.go s outcome = some call') : call'.Known σ := by
  obtain ⟨flow', hstep, rfl⟩ := Option.map_eq_some_iff.mp hgo
  have hmoves := Flow.moves_of_step hstep
  refine
    { course := Flow.course_step (fun hsound => hsound.elim) (fun hsound => hsound.elim)
        h.course hstep
      update := h.update
      made := ?_
      outgoing := fun out hout => ?_
      failed := fun stub status rest htrace hunavailable first hfirst => ?_ }
  · rw [List.map_append, h.made]
    exact (hmoves.made_eq h.update s.myPaxosAddress).symm
  · rcases List.mem_append.mp hout with hold | hmade
    · exact h.outgoing out hold
    · exact Outgoing.known_makes hmade
  · rcases hmoves.first_cases htrace with ⟨rest', hbefore⟩ | ⟨hbefore, rfl, _, _, hphase⟩
    · rw [h.head_append hbefore] at hfirst
      exact h.failed stub status rest' hbefore hunavailable first hfirst
    · rw [h.head_append hbefore, h.head_of_forwarding hphase hbefore] at hfirst
      exact hfailed (by rw [hphase]; trivial) hunavailable first hfirst

/-- A flow that has made a call is told that its last one failed. -/
theorem giveUp_cases (call : ClientCall) :
    call.outgoing = [] ∧ call.giveUp = call ∨
      ∃ others last, call.outgoing = others ++ [last] ∧
        call.giveUp.outgoing = others ++ [{ last with failed := true }] := by
  obtain ⟨server, request, flow, outgoing, stopped⟩ := call
  rcases List.eq_nil_or_concat' outgoing with rfl | ⟨others, last, rfl⟩
  · exact Or.inl ⟨rfl, rfl⟩
  · exact Or.inr ⟨others, last, rfl, by simp [giveUp]⟩

/-- What is known does not depend on what the flow is told. -/
theorem Known.giveUp (h : call.Known σ) : call.giveUp.Known σ := by
  rcases call.giveUp_cases with ⟨_, hsame⟩ | ⟨others, last, hlast, hgiveUp⟩
  · rw [hsame]
    exact h
  · refine
      { course := h.course
        update := h.update
        made := ?_
        outgoing := fun out hout => ?_
        failed := fun stub status rest htrace hunavailable first hfirst => ?_ }
    · show _ = call.flow.made
      rw [hgiveUp, ← h.made, hlast, List.map_append, List.map_append]
      rfl
    · have hold := h.outgoing
      rw [hlast] at hold
      rw [hgiveUp] at hout
      rcases List.mem_append.mp hout with hout | hout
      · exact hold out (List.mem_append_left _ hout)
      · cases List.mem_singleton.mp hout
        have hknown := hold last (List.mem_append_right _ (List.mem_singleton.mpr rfl))
        exact ⟨hknown.request, hknown.refused, hknown.running⟩
    · have hold := h.failed stub status rest htrace hunavailable
      rw [hlast] at hold
      rw [hgiveUp] at hfirst
      cases others with
      | nil =>
        cases hfirst
        rfl
      | cons head rest => exact hold first hfirst

/-- A call that the flow made is handled. -/
theorem Known.arrive (h : call.Known σ) {j : Nat} {out : Outgoing}
    (hout : call.outgoing[j]? = some out) {context : ServerContext} {run : Nat}
    (hrun : out.request.refusal context = none → ∃ inv, σ.runs[run]? = some inv ∧
      (out.request.IsUpdate → inv.request = out.request)) :
    ({ call with outgoing := call.outgoing.set j (out.handled context run) }).Known σ := by
  have hmem := List.mem_of_getElem? hout
  obtain ⟨hlt, hget⟩ := List.getElem?_eq_some_iff.mp hout
  refine
    { course := h.course
      update := h.update
      made := ?_
      outgoing := fun out' hout' => ?_
      failed := fun stub status rest htrace hunavailable first hfirst => ?_ }
  · show List.map _ (call.outgoing.set j (out.handled context run)) = call.flow.made
    rw [← h.made, List.map_set]
    refine Eq.trans ?_ (List.set_getElem_self (i := j) (by rwa [List.length_map]))
    rw [List.getElem_map, hget]
    rfl
  · rcases List.mem_or_eq_of_mem_set hout' with hout' | rfl
    · exact h.outgoing out' hout'
    · exact (h.outgoing out hmem).handled hrun
  · have hfailed := h.failed stub status rest htrace hunavailable
    have hfirst' : (call.outgoing.set j (out.handled context run)).head? = some first := hfirst
    rw [List.head?_eq_getElem?, List.getElem?_set] at hfirst'
    rw [List.head?_eq_getElem?] at hfailed
    split at hfirst'
    · rename_i hzero
      subst hzero
      cases hfirst'
      exact hfailed out hout
    · exact hfailed first hfirst'

end ClientCall

/-! ## The runs -/

namespace Cluster

variable {c c' : Cluster} {act : Action}

/-- No step makes an answer of an invocation one that a flow elects after. -/
theorem answersFinally_change (h : c.system.AnswersFinally) (hchange : Change c c') :
    c'.system.AnswersFinally := by
  cases hchange with
  | paxos hstep hstart => exact System.answersFinally_step h hstep
  | _ => exact h

theorem answersFinally_of_reachable {setup : System → Prop} {C : Cluster → Action → Prop}
    (h : (cluster setup).Reachable C c) : c.system.AnswersFinally :=
  invariant_of_changes (I := fun c => c.system.AnswersFinally)
    (fun c hinit _ i inv status hi => by simp [hinit.system.runs] at hi)
    (fun _ _ => answersFinally_change) h

/-- What is known of a call stays so in a step of the cluster. -/
theorem known_step (horigins : Origins c) {call : ClientCall} (h : call.Known c.system)
    (hstep : c.step act = some c') : call.Known c'.system := by
  have hchanges := changes_of_step (step_cases hstep)
  clear hstep
  suffices hall : Origins c' ∧ call.Known c'.system from hall.2
  induction hchanges with
  | refl => exact ⟨horigins, h⟩
  | tail _ hlast ih =>
    exact ⟨origins_change ih.1 hlast, ih.2.continues (hlast.continues ih.1.provenance.wf)⟩

/-- Where a call arrives that is not refused, an invocation starts. -/
theorem arrival_run {out : Outgoing} {server : Addr} {context : ServerContext}
    (hstep : c.step (out.arrival server context) = some c')
    (hrefusal : out.request.refusal context = none) :
    ∃ inv, c'.system.runs[c.system.runs.length]? = some inv ∧
      (out.request.IsUpdate → inv.request = out.request) := by
  have hentered : ∀ {callee : Addr} {request : Request}, request.refusal context = none →
      (c.system.start callee request context).runs[c.system.runs.length]? =
        some (Invocation.enter callee (c.system.servers callee) request) := by
    intro callee request hnone
    rw [System.start, hnone]
    exact List.getElem?_concat_length ..
  unfold Outgoing.arrival at hstep
  split at hstep
  · rename_i key coordinator hrequest
    rw [hrequest] at hrefusal
    cases step_cases hstep with
    | electNewCoordinator hlisted =>
      exact ⟨_, hentered hrefusal, fun hupdate => absurd hupdate (by rw [hrequest]; exact id)⟩
  · cases step_cases hstep with
    | paxos hpermits hpaxos =>
      cases hpaxos
      exact ⟨_, hentered hrefusal, fun _ => rfl⟩

end Cluster

namespace KeyValueStore

variable {setup : System → Prop} {s s' : KeyValueStore} {act : Action}

/-- The steps, with what they leave of the cluster and of the calls. -/
inductive StepCases (s : KeyValueStore) : KeyValueStore → Prop where
  | cluster {act : Cluster.Action} {c : Cluster} (hown : Own act)
      (hstep : s.cluster.step act = some c) :
      StepCases s { cluster := c, calls := s.calls.map (stopOn act) }
  | request {server : Addr} {request : Request} (hupdate : request.IsUpdate) :
      StepCases s { s with calls := s.calls ++ [{ server := server, request := request }] }
  | go {i : Nat} {call call' : ClientCall} {service : MultiPaxosServiceImpl} {outcome : Answer}
      (hcall : s.calls[i]? = some call) (hgo : call.go service outcome = some call')
      (hheard : call.flow.phase.Waits → ∃ out ∈ call.outgoing,
        out.answer s.cluster.system = some outcome.status) :
      StepCases s (s.setCall i call')
  | fail {i : Nat} {call call' : ClientCall} {service : MultiPaxosServiceImpl}
      {outcome : Answer} (hcall : s.calls[i]? = some call)
      (hgo : call.giveUp.go service outcome = some call') : StepCases s (s.setCall i call')
  | arrive {i j : Nat} {call : ClientCall} {out : Outgoing} {context : ServerContext}
      {c : Cluster} (hcall : s.calls[i]? = some call) (hout : call.outgoing[j]? = some out)
      (hnew : out.handling = .onItsWay)
      (hstep : s.cluster.step (out.arrival call.server context) = some c) :
      StepCases s ({ s with cluster := c }.setCall i
        { call with
          outgoing := call.outgoing.set j (out.handled context s.cluster.system.runs.length) })

theorem step_cases (h : s.step act = some s') : StepCases s s' := by
  cases act with
  | cluster act =>
    simp only [step] at h
    split at h
    · obtain ⟨c, hc, rfl⟩ := Option.map_eq_some_iff.mp h
      exact .cluster ‹_› hc
    · cases h
  | request server request =>
    simp only [step] at h
    split at h
    · cases h
      exact .request ‹_›
    · cases h
  | step i =>
    simp only [step] at h
    split at h
    · cases h
    · rename_i call hcall
      split at h
      · cases h
      · rename_i hnot
        obtain ⟨call', hgo, rfl⟩ := Option.map_eq_some_iff.mp h
        exact .go hcall hgo fun hwaits => absurd (Or.inr hwaits) hnot
  | arrive i j context =>
    simp only [step] at h
    split at h
    · cases h
    · rename_i call hcall
      split at h
      · cases h
      · rename_i out hout
        split at h
        · obtain ⟨c, hc, rfl⟩ := Option.map_eq_some_iff.mp h
          exact .arrive hcall hout ‹_› hc
        · cases h
  | answer i =>
    simp only [step] at h
    split at h
    · cases h
    · rename_i call hcall
      split at h
      · cases h
      · split at h
        · cases h
        · rename_i status hanswer
          obtain ⟨call', hgo, rfl⟩ := Option.map_eq_some_iff.mp h
          obtain ⟨out, hlast, hout⟩ := Option.bind_eq_some_iff.mp hanswer
          exact .go hcall hgo fun _ => ⟨out, List.mem_of_getLast? hlast, hout⟩
  | fail i status =>
    simp only [step] at h
    split at h
    · cases h
    · rename_i call hcall
      split at h
      · cases h
      · obtain ⟨call', hgo, rfl⟩ := Option.map_eq_some_iff.mp h
        exact .fail hcall hgo

/-- Of a call that changes the new state is known, of the others the old one. -/
theorem known_setCall {P : ClientCall → Prop} (h : ∀ call ∈ s.calls, P call) (i : Nat)
    {call : ClientCall} (hcall : P call) : ∀ call' ∈ (s.setCall i call).calls, P call' := by
  intro call' hmem
  rcases List.mem_or_eq_of_mem_set hmem with hmem | rfl
  · exact h call' hmem
  · exact hcall

/-- The cluster goes through runs of its own. -/
theorem cluster_reachable (h : (keyValueStore setup).Reachable (fun _ _ => True) s) :
    (PaxosKVStore.cluster setup).Reachable (fun _ _ => True) s.cluster := by
  refine h.invariant
    (I := fun s => (PaxosKVStore.cluster setup).Reachable (fun _ _ => True) s.cluster) ?_ ?_
  · exact fun s hinit => .start hinit.1
  · intro s act s' _ _ hstep hreach
    cases step_cases hstep with
    | cluster hown hcluster => exact hreach.next trivial hcluster
    | arrive hcall hout hnew hcluster => exact hreach.next trivial hcluster
    | _ => exact hreach

/-- What is known of all calls stays so in a step. -/
theorem known_step (horigins : s.cluster.Origins)
    (hfinal : s.cluster.system.AnswersFinally)
    (h : ∀ call ∈ s.calls, call.Known s.cluster.system) (hstep : StepCases s s') :
    ∀ call ∈ s'.calls, call.Known s'.cluster.system := by
  cases hstep with
  | @cluster act c hown hcluster =>
    intro call hmem
    obtain ⟨call, hold, rfl⟩ := List.mem_map.mp hmem
    exact (Cluster.known_step horigins (h call hold) hcluster).stopOn act
  | @request server request hupdate =>
    intro call hmem
    rcases List.mem_append.mp hmem with hold | hnew
    · exact h call hold
    · cases List.mem_singleton.mp hnew
      exact ClientCall.known_new hupdate
  | @go i call call' service outcome hcall hgo hheard =>
    have hknown := h call (List.mem_of_getElem? hcall)
    refine known_setCall h i (hknown.go (fun hwaits hunavailable => ?_) hgo)
    obtain ⟨out, hout, hanswer⟩ := hheard hwaits
    exact absurd hunavailable ((hknown.outgoing out hout).answer hfinal hanswer)
  | @fail i call call' service outcome hcall hgo =>
    have hknown := (h call (List.mem_of_getElem? hcall)).giveUp
    refine known_setCall h i (hknown.go (fun _ _ last hlast => ?_) hgo)
    rcases call.giveUp_cases with ⟨hnil, hsame⟩ | ⟨others, out, _, hgiveUp⟩
    · rw [hsame, hnil] at hlast
      cases hlast
    · rw [hgiveUp, List.getLast?_concat] at hlast
      cases hlast
      rfl
  | @arrive i j call out context c hcall hout hnew hcluster =>
    have hknown : ∀ call ∈ s.calls, call.Known c.system :=
      fun call hmem => Cluster.known_step horigins (h call hmem) hcluster
    refine known_setCall (s := { s with cluster := c }) hknown i ?_
    exact (hknown call (List.mem_of_getElem? hcall)).arrive hout (Cluster.arrival_run hcluster)

theorem known_of_reachable (h : (keyValueStore setup).Reachable (fun _ _ => True) s) :
    ∀ call ∈ s.calls, call.Known s.cluster.system := by
  refine h.invariant (I := fun s => ∀ call ∈ s.calls, call.Known s.cluster.system) ?_ ?_
  · intro s hinit call hmem
    rw [hinit.2] at hmem
    cases hmem
  · intro s act s' hreach _ hstep hknown
    have hcluster := cluster_reachable hreach
    exact known_step (Cluster.origins_of_reachable hcluster)
      (Cluster.answersFinally_of_reachable hcluster) hknown (step_cases hstep)

end KeyValueStore

end PaxosKVStore
