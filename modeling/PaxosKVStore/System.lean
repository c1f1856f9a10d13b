import Mathlib.Logic.Function.Basic
import PaxosKVStore.Lib.ActionSystem
import PaxosKVStore.RunPaxos

/-!
# The servers, their invocations and the network

`System` is the whole deployment: the servers by address, the invocations of
`RunPaxos` in the order in which they started, and the calls whose caller
gave up but which may still arrive.  `history` is a history variable, newest
event first.

An `Action` fixes every choice of the environment: which handler starts,
which invocation moves, what becomes of a call and what `RandomFail` draws.
`step` is then a function, and `paxos` is the transition system of all
interleavings.  A handler runs in one step at its receiver.

What becomes of a call is its `Fate`.  A call whose reply is lost stays in
`inFlight`, and the action `arrive` handles it at any later time, or never.
The caller goes on at once: whatever happens between the send and the moment
the caller notices the failure can be moved before the caller's next step.

`StepCases` lists the steps with their new states, and `step_cases` is the
inversion of `step` that all invariant proofs start from.
-/

namespace PaxosKVStore

/-- What becomes of a call. -/
inductive Fate where
  | delivered
  | lost
  | replyLost
  deriving DecidableEq, Repr

/-- A choice of the environment. -/
inductive Action where
  /-- A `PutPair`, `DeletePair` or `ElectCoordinator` request reaches `server`. -/
  | start (server : Addr) (request : Request) (context : ServerContext := {})
  /-- The invocation `run` makes its next call. -/
  | call (run : Nat) (fate : Fate) (randomFail : Bool)
  /-- The invocation `run` goes on after a loop. -/
  | advance (run : Nat)
  /-- A call that its caller gave up arrives. -/
  | arrive (index : Nat) (context : ServerContext) (randomFail : Bool)
  deriving DecidableEq, Repr

/-- The invocation `run` makes `n` calls in a row, all delivered and none
failing at random. -/
def Action.calls (run n : Nat) : List Action :=
  List.replicate n (.call run .delivered false)

/-- The invocation `run` walks a whole loop over `n` replicas. -/
def Action.loop (run n : Nat) : List Action :=
  Action.calls run n ++ [.advance run]

inductive Event where
  | refused (server : Addr) (request : Request) (status : Status)
  | sent (run : Nat) (receiver : Addr) (msg : Message)
  | handled (run : Nat) (receiver : Addr) (msg : Message) (reply : Reply) (dataChanged : Bool)
  | returned (run : Nat) (request : Request) (status : Status)
  deriving DecidableEq, Repr

structure System where
  servers : Addr → MultiPaxosServiceImpl
  runs : List Invocation := []
  inFlight : List (Nat × Addr × Message) := []
  history : List Event := []

/-- What `PutPair`, `DeletePair` and `ElectCoordinator` answer before they
enter `RunPaxos`.  The first two refuse the reserved key, and
`ElectCoordinator` takes any key. -/
def Request.refusal (context : ServerContext) (request : Request) : Option Status :=
  if context.isCancelled then some abandoned
  else
    match request with
    | .put key _ =>
        if key = "coordinator" then some { code := .aborted, message := "Illegal keyword" }
        else none
    | .delete key =>
        if key = "coordinator" then some { code := .aborted, message := "Illegal keyword" }
        else none
    | .electCoordinator _ _ => none

/-- Only an election enters `RunPaxos` on the reserved key. -/
theorem Request.election_of_refusal {request : Request} {context : ServerContext}
    (h : request.refusal context = none) (hkey : request.key = "coordinator") :
    ∃ coordinator, request = .electCoordinator "coordinator" coordinator := by
  unfold Request.refusal at h
  split at h
  · cases h
  · cases request with
    | put key value => simp [show key = "coordinator" from hkey] at h
    | delete key => simp [show key = "coordinator" from hkey] at h
    | electCoordinator key coordinator =>
      exact ⟨coordinator, by rw [show key = "coordinator" from hkey]⟩

namespace System

/-- The answer of the handler that a call reaches. -/
def answer (σ : System) (receiver : Addr) (msg : Message) (context : ServerContext)
    (randomFail : Bool) : Reply :=
  ((σ.servers receiver).handle context randomFail msg).1

/-- Whether that handler changes the data map. -/
def dataChanged (σ : System) (receiver : Addr) (msg : Message) (context : ServerContext)
    (randomFail : Bool) : Bool :=
  decide (((σ.servers receiver).handle context randomFail msg).2.kvDb.dataMap ≠
    (σ.servers receiver).kvDb.dataMap)

/-- Handle a call at its receiver. -/
def deliver (σ : System) (run : Nat) (receiver : Addr) (msg : Message)
    (context : ServerContext) (randomFail : Bool) : System :=
  { σ with
    servers := Function.update σ.servers receiver
      ((σ.servers receiver).handle context randomFail msg).2
    history := .handled run receiver msg (σ.answer receiver msg context randomFail)
      (σ.dataChanged receiver msg context randomFail) :: σ.history }

/-- Note a call in the history. -/
def send (σ : System) (run : Nat) (receiver : Addr) (msg : Message) : System :=
  { σ with history := .sent run receiver msg :: σ.history }

/-- Replace the variables of an invocation. -/
def setRun (σ : System) (run : Nat) (inv : Invocation) : System :=
  { σ with runs := σ.runs.set run inv }

/-- A request is refused at once, or its invocation starts.  Reading the
latest round creates the key in the log of the server. -/
def start (σ : System) (server : Addr) (request : Request) (context : ServerContext) :
    System :=
  match request.refusal context with
  | some status => { σ with history := .refused server request status :: σ.history }
  | none =>
      let service := σ.servers server
      { σ with
        servers := Function.update σ.servers server
          { service with kvDb := (service.kvDb.getLatestRound request.key).2 }
        runs := σ.runs ++ [Invocation.enter server service request] }

/-- The call of an invocation, under the fate of the call. -/
def call (σ : System) (run : Nat) (inv : Invocation) (receiver : Addr) (msg : Message)
    (fate : Fate) (randomFail : Bool) : System :=
  let σ' := σ.send run receiver msg
  match fate with
  | .delivered =>
      (σ'.deliver run receiver msg {} randomFail).setRun run
        (inv.receive receiver (some (σ.answer receiver msg {} randomFail)))
  | .lost => σ'.setRun run (inv.receive receiver none)
  | .replyLost =>
      { σ'.setRun run (inv.receive receiver none) with
        inFlight := σ.inFlight ++ [(run, receiver, msg)] }

/-- Note a return in the history. -/
def noteReturn (σ : System) (run : Nat) (inv : Invocation) : System :=
  match inv.phase with
  | .returned status =>
      { σ with history := .returned run inv.request status :: σ.history }
  | _ => σ

def step (σ : System) : Action → Option System
  | .start server request context => some (σ.start server request context)
  | .call run fate randomFail =>
      match σ.runs[run]? with
      | none => none
      | some inv =>
          match inv.nextCall with
          | none => none
          | some (receiver, msg) => some (σ.call run inv receiver msg fate randomFail)
  | .advance run =>
      match σ.runs[run]? with
      | none => none
      | some inv =>
          match inv.advance with
          | none => none
          | some inv' => some ((σ.setRun run inv').noteReturn run inv')
  | .arrive index context randomFail =>
      match σ.inFlight[index]? with
      | none => none
      | some (run, receiver, msg) =>
          some
            { σ.deliver run receiver msg context randomFail with
              inFlight := σ.inFlight.eraseIdx index }

/-- Nothing was stored, asked or sent yet. -/
structure IsInitial (σ : System) : Prop where
  kvDb : ∀ addr, (σ.servers addr).kvDb = {}
  coordinator : ∀ addr, (σ.servers addr).paxosStubsMap.coordinator = ""
  runs : σ.runs = []
  inFlight : σ.inFlight = []
  history : σ.history = []

/-- A deployment at start-up: every server has the stubs of the configured
replicas. -/
def fresh (replicas : List Addr) : System where
  servers := fun addr =>
    { myPaxosAddress := addr
      paxosStubsMap := { stubs := .ofReplicas replicas } }

theorem fresh_isInitial (replicas : List Addr) : (fresh replicas).IsInitial :=
  ⟨fun _ => rfl, fun _ => rfl, rfl, rfl, rfl⟩

/-! ## The steps, case by case -/

inductive StepCases (σ : System) : Action → System → Prop where
  | refuse {server : Addr} {request : Request} {context : ServerContext} {status : Status}
      (hrefusal : request.refusal context = some status) :
      StepCases σ (.start server request context)
        { σ with history := .refused server request status :: σ.history }
  | enter {server : Addr} {request : Request} {context : ServerContext}
      (hrefusal : request.refusal context = none) :
      StepCases σ (.start server request context)
        { σ with
          servers := Function.update σ.servers server
            { σ.servers server with
              kvDb := ((σ.servers server).kvDb.getLatestRound request.key).2 }
          runs := σ.runs ++ [Invocation.enter server (σ.servers server) request] }
  | call {run : Nat} {inv : Invocation} {receiver : Addr} {msg : Message} (fate : Fate)
      (randomFail : Bool) (hrun : σ.runs[run]? = some inv) (hcall : inv.Calls receiver msg) :
      StepCases σ (.call run fate randomFail) (σ.call run inv receiver msg fate randomFail)
  | advance {run : Nat} {inv inv' : Invocation} (hrun : σ.runs[run]? = some inv)
      (hadvance : inv.Advances inv') :
      StepCases σ (.advance run) ((σ.setRun run inv').noteReturn run inv')
  | arrive {index run : Nat} {receiver : Addr} {msg : Message} (context : ServerContext)
      (randomFail : Bool) (hindex : σ.inFlight[index]? = some (run, receiver, msg)) :
      StepCases σ (.arrive index context randomFail)
        { σ.deliver run receiver msg context randomFail with
          inFlight := σ.inFlight.eraseIdx index }

theorem step_cases {σ σ' : System} {act : Action} (h : σ.step act = some σ') :
    StepCases σ act σ' := by
  cases act with
  | start server request context =>
    simp only [step, start, Option.some.injEq] at h
    subst h
    split
    · exact .refuse ‹_›
    · exact .enter ‹_›
  | call run fate randomFail =>
    simp only [step] at h
    split at h
    · cases h
    · rename_i inv hrun
      split at h
      · cases h
      · rename_i receiver msg hnext
        cases h
        exact .call fate randomFail hrun (Invocation.calls_of_nextCall hnext)
  | advance run =>
    simp only [step] at h
    split at h
    · cases h
    · rename_i inv hrun
      split at h
      · cases h
      · rename_i inv' hadvance
        cases h
        exact .advance hrun (Invocation.advances_of_advance hadvance)
  | arrive index context randomFail =>
    simp only [step] at h
    split at h
    · cases h
    · rename_i run receiver msg hindex
      cases h
      exact .arrive context randomFail hindex

end System

/-- No condition on the steps: any fate of any call. -/
def Unrestricted (_ : System) (_ : Action) : Prop := True

instance (σ : System) (act : Action) : Decidable (Unrestricted σ act) := isTrue trivial

/-- All interleavings of the invocations, from an initial state that meets
`setup`.  The setup fixes the replica lists of the servers. -/
def paxos (setup : System → Prop) : ActionSystem System Action where
  isInitial σ := σ.IsInitial ∧ setup σ
  step := System.step

end PaxosKVStore
