import PaxosKVStore.Following
import PaxosKVStore.RecoveredReplica

/-!
# Servers that crash, start and recover while others run

`Cluster` is the system with the start-up of its servers.  `Initialize` takes
one step for each `GetCoordinator` call, for each of the two copies that
`Recover` makes, and for each entry that `GetRecovery` writes, so everything
else can happen in between.  `Initializing` is the place where a server stands
in it.  A server answers calls from its start on.

A crash loses all that the server has in memory, with its start-up and the
invocations that it runs.  The server is back at once: while it is down the
calls to it are lost.

`StepCases` lists the steps, and a step of the Paxos part is one of `System`.
-/

namespace PaxosKVStore

/-- How far a server is in `Initialize`. -/
inductive Initializing where
  | idle
  /-- It asks the replicas in `todo` for the coordinator. -/
  | discovering (todo : List Addr) (found : Discovered)
  /-- It calls `ElectCoordinator` at itself, and then waits for `run`. -/
  | electing (run : Option Nat)
  | recovering
  /-- The coordinator has copied its data map and not yet its logs. -/
  | copying (coordinator : Addr) (kvMap : DataMap)
  /-- These entries of the snapshot are still to be written. -/
  | restoring (kvMap : List (String × String)) (paxosLogs : List (String × Int × PaxosLog))
  | returned (status : Status)

/-- The body of the discovery loop, with the answer to its call. -/
def Discovered.heard (found : Discovered) (addr : Addr) :
    Option (Status × GetCoordinatorResponse) → Discovered
  | some (status, response) =>
      if status.ok then
        { coordinators :=
            if response.coordinator = "" then found.coordinators
            else found.coordinators.insert response.coordinator
          livePaxosStubs := found.livePaxosStubs ++ [addr] }
      else found
  | none => found

/-- The loop of `GetCoordinator` makes these steps. -/
theorem Discovered.ask_eq_heard (e : StartUp) (servers : Servers) (found : Discovered)
    (addr : Addr) :
    found.ask e servers addr =
      found.heard addr (if e.discovery addr = .delivered then
        some ((servers addr).getCoordinator {}) else none) := by
  unfold Discovered.ask
  cases e.discovery addr <;> rfl

/-- The step of a server in `Initialize`. -/
inductive InitializeStep where
  | start
  /-- The next `GetCoordinator` call is made. -/
  | ask (fate : Fate)
  /-- The discovery loop is over. -/
  | discovered
  /-- The `ElectCoordinator` call arrives. -/
  | elect
  /-- Its answer arrives. -/
  | elected
  | copyDataMap
  | copyPaxosLogs
  | setValue (index : Nat)
  | addPaxosLog (index : Nat)
  | finish
  /-- The `ElectCoordinator` or the `Recover` call fails. -/
  | fail (status : Status)
  deriving DecidableEq, Repr

structure Cluster where
  system : System
  initializing : Addr → Initializing := fun _ => .idle
  /-- The invocations of servers that crashed. -/
  stopped : List Nat := []

namespace Cluster

/-- A choice of the environment. -/
inductive Action where
  /-- A step of the Paxos part.  Only clients start invocations here. -/
  | paxos (act : PaxosKVStore.Action)
  /-- The front-end of `server` calls `ElectCoordinator` at it. -/
  | electNewCoordinator (server : Addr) (context : ServerContext)
  | initializeServer (server : Addr) (step : InitializeStep)
  | crash (server : Addr)
  deriving DecidableEq, Repr

/-- The steps of the Paxos part that are possible: clients ask for updates, and
an invocation moves unless its server crashed. -/
def Permits (c : Cluster) : PaxosKVStore.Action → Prop
  | .start _ request _ => request.IsUpdate
  | .call run _ _ => run ∉ c.stopped
  | .advance run => run ∉ c.stopped
  | .arrive .. => True

instance (c : Cluster) : ∀ act, Decidable (c.Permits act)
  | .start _ request _ => inferInstanceAs (Decidable request.IsUpdate)
  | .call _ _ _ => inferInstanceAs (Decidable (_ ∉ _))
  | .advance _ => inferInstanceAs (Decidable (_ ∉ _))
  | .arrive .. => isTrue trivial

/-- The request that a server sends to itself in `ElectNewCoordinator`. -/
def ownElection (s : MultiPaxosServiceImpl) : Request :=
  .electCoordinator "coordinator" s.myPaxosAddress

/-- Move a server on in `Initialize`. -/
def goTo (c : Cluster) (server : Addr) (phase : Initializing) : Cluster :=
  { c with initializing := Function.update c.initializing server phase }

/-- Replace the state of a server. -/
def setServer (c : Cluster) (server : Addr) (service : MultiPaxosServiceImpl) : Cluster :=
  { c with
    system := { c.system with servers := Function.update c.system.servers server service } }

/-- What `Initialize` returns when its election failed. -/
def electionFailed (status : Status) : Status :=
  { code := .aborted, message := "ElectNewCoordinator Failed: " ++ status.message }

/-- What `Initialize` returns when the recovery failed. -/
def recoveryFailed : Status :=
  { code := .aborted
    message := "GetRecovery Failed: Failed to get Recovery from Coordinator." }

/-- The step of `server` in `Initialize`. -/
def initializeServer (c : Cluster) (server : Addr) (step : InitializeStep) : Option Cluster :=
  let service := c.system.servers server
  match c.initializing server, step with
  | .idle, .start => some (c.goTo server (.discovering service.paxosStubsMap.getPaxosStubs {}))
  | .discovering (addr :: todo) found, .ask fate =>
      let answer :=
        if fate = .delivered then some ((c.system.servers addr).getCoordinator {}) else none
      some (c.goTo server (.discovering todo (found.heard addr answer)))
  | .discovering [] found, .discovered =>
      match found.coordinators with
      | [coordinator] =>
          if coordinator ∉ found.livePaxosStubs then some (c.goTo server (.electing none))
          else
            let service :=
              { service with
                paxosStubsMap := (service.paxosStubsMap.setCoordinator coordinator).2 }
            some ((c.setServer server service).goTo server .recovering)
      | _ => some (c.goTo server (.electing none))
  | .electing none, .elect =>
      match service.paxosStubsMap.getStub service.myPaxosAddress with
      | none => none
      | some myPaxosStub =>
          some
            ({ c with system := c.system.start myPaxosStub (ownElection service) {} }.goTo server
              (.electing (some c.system.runs.length)))
  | .electing (some run), .elected =>
      match c.system.runs[run]? with
      | none => none
      | some inv =>
          match inv.phase with
          | .returned status =>
              if status.ok then some (c.goTo server .recovering)
              else some (c.goTo server (.returned (electionFailed status)))
          | _ => none
  | .recovering, .copyDataMap =>
      match service.paxosStubsMap.getCoordinatorStub with
      | none => none
      | some coordinator =>
          some (c.goTo server (.copying coordinator (c.system.servers coordinator).kvDb.dataMap))
  | .copying coordinator kvMap, .copyPaxosLogs =>
      let response : RecoverResponse :=
        { kvMap := kvMap, paxosLogs := (c.system.servers coordinator).kvDb.paxosLogsMap }
      let order := RestoreOrder.byKey response
      some (c.goTo server (.restoring order.kvMap order.writes))
  | .restoring kvMap paxosLogs, .setValue index =>
      match kvMap[index]? with
      | none => none
      | some (key, value) =>
          let service := { service with kvDb := (service.kvDb.setValue key value).2 }
          some ((c.setServer server service).goTo server
            (.restoring (kvMap.eraseIdx index) paxosLogs))
  | .restoring [] paxosLogs, .addPaxosLog index =>
      match paxosLogs[index]? with
      | none => none
      | some (key, round, log) =>
          let service :=
            { service with kvDb := service.kvDb.addPaxosLogRecovered key round log }
          some ((c.setServer server service).goTo server
            (.restoring [] (paxosLogs.eraseIdx index)))
  | .restoring [] [], .finish => some (c.goTo server (.returned Status.OK))
  | .electing _, .fail status =>
      if status.ok then none else some (c.goTo server (.returned (electionFailed status)))
  | .recovering, .fail status =>
      if status.ok ∨ service.paxosStubsMap.getCoordinatorStub = none then none
      else some (c.goTo server (.returned recoveryFailed))
  | .copying _ _, .fail status =>
      if status.ok then none else some (c.goTo server (.returned recoveryFailed))
  | _, _ => none

/-- The invocations that `server` runs. -/
def runsOf (σ : System) (server : Addr) : List Nat :=
  (List.range σ.runs.length).filter fun run => σ.runs[run]?.map Invocation.server = some server

/-- A server that has just started. -/
def restarted (s : MultiPaxosServiceImpl) : MultiPaxosServiceImpl :=
  { s with kvDb := {}, paxosStubsMap := { stubs := s.paxosStubsMap.stubs } }

/-- What a crash of `server` leaves of the start-up of another server: its
`Recover` call fails. -/
def interrupted (server : Addr) : Initializing → Initializing
  | .copying coordinator kvMap =>
      if coordinator = server then .returned recoveryFailed else .copying coordinator kvMap
  | phase => phase

def step (c : Cluster) : Action → Option Cluster
  | .paxos act =>
      if c.Permits act then (c.system.step act).map fun σ => { c with system := σ } else none
  | .electNewCoordinator server context =>
      let service := c.system.servers server
      match service.paxosStubsMap.getStub service.myPaxosAddress with
      | none => none
      | some myPaxosStub =>
          some { c with system := c.system.start myPaxosStub (ownElection service) context }
  | .initializeServer server step => c.initializeServer server step
  | .crash server =>
      some
        { system :=
            { c.system with
              servers := Function.update c.system.servers server
                (restarted (c.system.servers server)) }
          initializing :=
            Function.update (fun a => interrupted server (c.initializing a)) server .idle
          stopped := runsOf c.system server ++ c.stopped }

/-- Nothing has happened yet, and every server runs under its own address. -/
structure IsInitial (c : Cluster) : Prop where
  system : c.system.IsInitial
  address : ∀ a, (c.system.servers a).myPaxosAddress = a
  initializing : ∀ a, c.initializing a = .idle
  stopped : c.stopped = []

end Cluster

/-- All runs of a cluster whose replica lists meet `setup`. -/
def cluster (setup : System → Prop) : ActionSystem Cluster Cluster.Action where
  isInitial c := c.IsInitial ∧ setup c.system
  step := Cluster.step

namespace Cluster

/-! ## The steps, case by case -/

inductive StepCases (c : Cluster) : Action → Cluster → Prop where
  | paxos {act : PaxosKVStore.Action} {σ : System} (hpermits : c.Permits act)
      (hstep : c.system.step act = some σ) : StepCases c (.paxos act) { c with system := σ }
  | electNewCoordinator {server : Addr} {context : ServerContext}
      (hlisted : (c.system.servers server).myPaxosAddress ∈
        (c.system.servers server).paxosStubsMap.stubs.addrs) :
      StepCases c (.electNewCoordinator server context)
        { c with
          system := c.system.start (c.system.servers server).myPaxosAddress
            (ownElection (c.system.servers server)) context }
  | start {server : Addr} (hphase : c.initializing server = .idle) :
      StepCases c (.initializeServer server .start)
        (c.goTo server
          (.discovering (c.system.servers server).paxosStubsMap.getPaxosStubs {}))
  | ask {server addr : Addr} {todo : List Addr} {found : Discovered} (fate : Fate)
      (hphase : c.initializing server = .discovering (addr :: todo) found) :
      StepCases c (.initializeServer server (.ask fate))
        (c.goTo server (.discovering todo (found.heard addr
          (if fate = .delivered then some ((c.system.servers addr).getCoordinator {})
          else none))))
  | discovered {server coordinator : Addr} {found : Discovered}
      (hphase : c.initializing server = .discovering [] found)
      (hname : found.coordinators = [coordinator])
      (hlive : coordinator ∈ found.livePaxosStubs) :
      StepCases c (.initializeServer server .discovered)
        ((c.setServer server
          { c.system.servers server with
            paxosStubsMap :=
              ((c.system.servers server).paxosStubsMap.setCoordinator coordinator).2 }).goTo
          server .recovering)
  | undiscovered {server : Addr} {found : Discovered}
      (hphase : c.initializing server = .discovering [] found) :
      StepCases c (.initializeServer server .discovered) (c.goTo server (.electing none))
  | elect {server : Addr} (hphase : c.initializing server = .electing none)
      (hlisted : (c.system.servers server).myPaxosAddress ∈
        (c.system.servers server).paxosStubsMap.stubs.addrs) :
      StepCases c (.initializeServer server .elect)
        ({ c with
          system := c.system.start (c.system.servers server).myPaxosAddress
            (ownElection (c.system.servers server)) {} }.goTo server
          (.electing (some c.system.runs.length)))
  | elected {server : Addr} {run : Nat} {inv : Invocation} {status : Status}
      (hphase : c.initializing server = .electing (some run))
      (hrun : c.system.runs[run]? = some inv) (hreturned : inv.phase = .returned status)
      (hok : status.ok = true) :
      StepCases c (.initializeServer server .elected) (c.goTo server .recovering)
  | copyDataMap {server coordinator : Addr} (hphase : c.initializing server = .recovering)
      (hstub : (c.system.servers server).paxosStubsMap.getCoordinatorStub = some coordinator) :
      StepCases c (.initializeServer server .copyDataMap)
        (c.goTo server (.copying coordinator (c.system.servers coordinator).kvDb.dataMap))
  | copyPaxosLogs {server coordinator : Addr} {kvMap : DataMap} {response : RecoverResponse}
      (hphase : c.initializing server = .copying coordinator kvMap)
      (hresponse : response =
        { kvMap := kvMap, paxosLogs := (c.system.servers coordinator).kvDb.paxosLogsMap }) :
      StepCases c (.initializeServer server .copyPaxosLogs)
        (c.goTo server (.restoring (RestoreOrder.byKey response).kvMap
          (RestoreOrder.byKey response).writes))
  | setValue {server : Addr} {index : Nat} {key value : String}
      {kvMap : List (String × String)} {paxosLogs : List (String × Int × PaxosLog)}
      (hphase : c.initializing server = .restoring kvMap paxosLogs)
      (hindex : kvMap[index]? = some (key, value)) :
      StepCases c (.initializeServer server (.setValue index))
        ((c.setServer server
          { c.system.servers server with
            kvDb := ((c.system.servers server).kvDb.setValue key value).2 }).goTo
          server (.restoring (kvMap.eraseIdx index) paxosLogs))
  | addPaxosLog {server : Addr} {index : Nat} {key : String} {round : Int} {log : PaxosLog}
      {paxosLogs : List (String × Int × PaxosLog)}
      (hphase : c.initializing server = .restoring [] paxosLogs)
      (hindex : paxosLogs[index]? = some (key, round, log)) :
      StepCases c (.initializeServer server (.addPaxosLog index))
        ((c.setServer server
          { c.system.servers server with
            kvDb := (c.system.servers server).kvDb.addPaxosLogRecovered key round log }).goTo
          server (.restoring [] (paxosLogs.eraseIdx index)))
  | finish {server : Addr} (hphase : c.initializing server = .restoring [] []) :
      StepCases c (.initializeServer server .finish) (c.goTo server (.returned Status.OK))
  | giveUp {server : Addr} {step : InitializeStep} (status : Status)
      (hno : status.ok = false) :
      StepCases c (.initializeServer server step) (c.goTo server (.returned status))
  | crash (server : Addr) :
      StepCases c (.crash server)
        { system :=
            { c.system with
              servers := Function.update c.system.servers server
                (restarted (c.system.servers server)) }
          initializing :=
            Function.update (fun a => interrupted server (c.initializing a)) server .idle
          stopped := runsOf c.system server ++ c.stopped }

/-- A stub to oneself is there if the own address is listed. -/
theorem getStub_eq_some {map : PaxosStubsMap} {address stub : Addr}
    (h : map.getStub address = some stub) : stub = address ∧ address ∈ map.stubs.addrs := by
  unfold PaxosStubsMap.getStub at h
  split at h
  · cases h
  · rename_i hlisted
    cases h
    rw [not_or, not_not] at hlisted
    exact ⟨rfl, hlisted.2⟩

theorem initializeServer_cases {c c' : Cluster} {server : Addr} {step : InitializeStep}
    (h : c.initializeServer server step = some c') :
    StepCases c (.initializeServer server step) c' := by
  unfold initializeServer at h
  simp only at h
  split at h
  · cases h
    exact .start ‹_›
  · cases h
    exact .ask _ ‹_›
  · split at h
    · split at h
      · cases h
        exact .undiscovered ‹_›
      · cases h
        exact .discovered ‹_› ‹_› (not_not.mp ‹_›)
    · cases h
      exact .undiscovered ‹_›
  · split at h
    · cases h
    · rename_i hstub
      obtain ⟨rfl, hlisted⟩ := getStub_eq_some hstub
      cases h
      exact .elect ‹_› hlisted
  · split at h
    · cases h
    · split at h
      · split at h
        · cases h
          exact .elected ‹_› ‹_› ‹_› ‹_›
        · cases h
          exact .giveUp _ rfl
      · cases h
  · split at h
    · cases h
    · cases h
      exact .copyDataMap ‹_› ‹_›
  · cases h
    exact .copyPaxosLogs ‹_› rfl
  · split at h
    · cases h
    · cases h
      exact .setValue ‹_› ‹_›
  · split at h
    · cases h
    · cases h
      exact .addPaxosLog ‹_› ‹_›
  · cases h
    exact .finish ‹_›
  · split at h
    · cases h
    · cases h
      exact .giveUp _ rfl
  · split at h
    · cases h
    · cases h
      exact .giveUp _ rfl
  · split at h
    · cases h
    · cases h
      exact .giveUp _ rfl
  · cases h

theorem step_cases {c c' : Cluster} {act : Action} (h : c.step act = some c') :
    StepCases c act c' := by
  cases act with
  | paxos act =>
    simp only [step] at h
    split at h
    · obtain ⟨σ, hσ, rfl⟩ := Option.map_eq_some_iff.mp h
      exact .paxos ‹_› hσ
    · cases h
  | electNewCoordinator server context =>
    simp only [step] at h
    split at h
    · cases h
    · rename_i hstub
      obtain ⟨rfl, hlisted⟩ := getStub_eq_some hstub
      cases h
      exact .electNewCoordinator hlisted
  | initializeServer server step => exact initializeServer_cases h
  | crash server =>
    cases h
    exact .crash server

/-! ## Runs to evaluate -/

/-- The start of a cluster in which all servers have the same replica list. -/
def fresh (replicas : List Addr) : Cluster := { system := System.fresh replicas }

theorem fresh_isInitial (replicas : List Addr) : (fresh replicas).IsInitial :=
  ⟨System.fresh_isInitial replicas, fun _ => rfl, fun _ => rfl, rfl⟩

/-- The result of an evaluated run of a fresh cluster is reachable. -/
theorem exists_reachable_fresh {replicas : List Addr} {C : Cluster → Action → Prop}
    [∀ c act, Decidable (C c act)] {acts : List Action} {P : Cluster → Prop}
    (h : ∃ c ∈ (cluster (System.SharesReplicas (.ofReplicas replicas))).execWhere C
      (fresh replicas) acts, P c) :
    ∃ c, (cluster (System.SharesReplicas (.ofReplicas replicas))).Reachable C c ∧ P c := by
  refine ActionSystem.exists_reachable_of_execWhere ?_ h
  exact ⟨fresh_isInitial replicas, fun _ => rfl⟩

/-- The invocation `run` walks through its four loops over `n` replicas. -/
def wholeRun (run n : Nat) : List Action :=
  (Action.loop run n ++ Action.loop run n ++ Action.loop run n ++ Action.loop run n).map .paxos

end Cluster

end PaxosKVStore
