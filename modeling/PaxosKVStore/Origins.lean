import Mathlib.Logic.Relation
import PaxosKVStore.Cluster

/-!
# Where everything in a cluster comes from

The provenance of `System` carries over to servers that crash and recover: a
crash leaves an empty database, and a recovery writes logs that were logs of
another server when its snapshot was taken.  `Change` groups the steps for
such arguments: a step of the Paxos part, a server that goes on in
`Initialize`, one that adopts a coordinator or writes an entry of its
snapshot, or a crash.

Every invocation is of a client or of a server that nominates itself.  So each
acceptance, message, entry and snapshot carries the operation of one request
for its key, and the reserved key is apart from the others.
-/

namespace PaxosKVStore

/-- A request that a server of the cluster enters `RunPaxos` with: an update of
a client, or the nomination of a server by itself. -/
inductive Request.Admitted (servers : Addr → MultiPaxosServiceImpl) : Request → Prop where
  | update {request : Request} (hupdate : request.IsUpdate)
      (hkey : request.key ≠ "coordinator") : Admitted servers request
  | election {a : Addr} (hlisted : a ∈ (servers a).paxosStubsMap.stubs.addrs) :
      Admitted servers (.electCoordinator "coordinator" a)

/-- An admitted request sets a coordinator on the reserved key, and only there. -/
theorem Request.Admitted.type_iff {servers : Addr → MultiPaxosServiceImpl} {request : Request}
    (h : request.Admitted servers) :
    request.setProposeValue.type = .setCoordinator ↔ request.key = "coordinator" := by
  cases h with
  | @update request hupdate hkey =>
    cases request with
    | put key value => simpa [Request.setProposeValue] using hkey
    | delete key => simpa [Request.setProposeValue] using hkey
    | electCoordinator key coordinator => exact hupdate.elim
  | election hlisted => simp [Request.setProposeValue, Request.key]

/-- An admitted request proposes something. -/
theorem Request.Admitted.type_ne_notSet {servers : Addr → MultiPaxosServiceImpl}
    {request : Request} (h : request.Admitted servers) :
    request.setProposeValue.type ≠ .notSet := by
  cases request <;> simp [Request.setProposeValue]

namespace Cluster

variable {c c' : Cluster}

/-! ## The steps in groups -/

/-- Where a server can go in `Initialize` without a change of the system. -/
inductive Enters (c : Cluster) (server : Addr) : Initializing → Prop where
  | discovering (todo : List Addr) : Enters c server (.discovering todo {})
  | heard {addr : Addr} {todo : List Addr} {found : Discovered} (fate : Fate)
      (hphase : c.initializing server = .discovering (addr :: todo) found) :
      Enters c server (.discovering todo (found.heard addr
        (if fate = .delivered then some ((c.system.servers addr).getCoordinator {}) else none)))
  | electing (run : Option Nat) : Enters c server (.electing run)
  | recovering : Enters c server .recovering
  | copying (coordinator : Addr) :
      Enters c server (.copying coordinator (c.system.servers coordinator).kvDb.dataMap)
  | restoring {coordinator : Addr} {kvMap : DataMap} {response : RecoverResponse}
      (hphase : c.initializing server = .copying coordinator kvMap)
      (hresponse : response =
        { kvMap := kvMap, paxosLogs := (c.system.servers coordinator).kvDb.paxosLogsMap }) :
      Enters c server (.restoring (RestoreOrder.byKey response).kvMap
        (RestoreOrder.byKey response).writes)
  | returned (status : Status) : Enters c server (.returned status)

inductive Change (c : Cluster) : Cluster → Prop where
  | paxos {act : PaxosKVStore.Action} {σ : System} (hstep : System.StepCases c.system act σ)
      (hstart : ∀ server request context, act = .start server request context →
        request.IsUpdate ∨ ∃ s, (c.system.servers s).myPaxosAddress ∈
          (c.system.servers s).paxosStubsMap.stubs.addrs ∧
          request = ownElection (c.system.servers s)) :
      Change c { c with system := σ }
  | goTo {server : Addr} {phase : Initializing} (henters : c.Enters server phase) :
      Change c (c.goTo server phase)
  | follow {server coordinator : Addr} {todo : List Addr} {found : Discovered}
      (hphase : c.initializing server = .discovering todo found)
      (hname : coordinator ∈ found.coordinators) :
      Change c (c.setServer server
        { c.system.servers server with
          paxosStubsMap :=
            ((c.system.servers server).paxosStubsMap.setCoordinator coordinator).2 })
  | setValue {server : Addr} {index : Nat} {key value : String}
      {kvMap : List (String × String)} {paxosLogs : List (String × Int × PaxosLog)}
      (hphase : c.initializing server = .restoring kvMap paxosLogs)
      (hentry : kvMap[index]? = some (key, value)) :
      Change c ((c.setServer server
        { c.system.servers server with
          kvDb := ((c.system.servers server).kvDb.setValue key value).2 }).goTo
        server (.restoring (kvMap.eraseIdx index) paxosLogs))
  | addPaxosLog {server : Addr} {index : Nat} {key : String} {round : Int} {log : PaxosLog}
      {paxosLogs : List (String × Int × PaxosLog)}
      (hphase : c.initializing server = .restoring [] paxosLogs)
      (hentry : paxosLogs[index]? = some (key, round, log)) :
      Change c ((c.setServer server
        { c.system.servers server with
          kvDb := (c.system.servers server).kvDb.addPaxosLogRecovered key round log }).goTo
        server (.restoring [] (paxosLogs.eraseIdx index)))
  | crash (server : Addr) :
      Change c
        { system :=
            { c.system with
              servers := Function.update c.system.servers server
                (restarted (c.system.servers server)) }
          initializing :=
            Function.update (fun a => interrupted server (c.initializing a)) server .idle
          stopped := runsOf c.system server ++ c.stopped }

/-- A start enters, or is refused. -/
theorem start_cases (σ : System) (server : Addr) (request : Request) (context : ServerContext) :
    System.StepCases σ (.start server request context) (σ.start server request context) :=
  System.step_cases rfl

/-- Every step is one change or two. -/
theorem changes_of_step {act : Action} (h : StepCases c act c') :
    Relation.ReflTransGen Change c c' := by
  cases h with
  | @paxos act σ hpermits hstep =>
    refine .single (.paxos (System.step_cases hstep) fun server request context heq => ?_)
    subst heq
    exact Or.inl hpermits
  | @electNewCoordinator server context hlisted =>
    refine .single (.paxos (start_cases ..) fun server' request context' heq => ?_)
    cases heq
    exact Or.inr ⟨server, hlisted, rfl⟩
  | start hphase => exact .single (.goTo (.discovering _))
  | ask fate hphase => exact .single (.goTo (.heard fate hphase))
  | @discovered server coordinator found hphase hname hlive =>
    refine .tail (.single (.follow hphase ?_)) (.goTo .recovering)
    rw [hname]
    exact List.mem_cons_self
  | undiscovered hphase => exact .single (.goTo (.electing none))
  | @elect server hphase hlisted =>
    refine .tail (.single (.paxos (start_cases _ _ (ownElection (c.system.servers server)) {})
      fun server' request context' heq => ?_)) (.goTo (.electing _))
    cases heq
    exact Or.inr ⟨server, hlisted, rfl⟩
  | elected hphase hrun hreturned hok => exact .single (.goTo .recovering)
  | copyDataMap hphase hstub => exact .single (.goTo (.copying _))
  | copyPaxosLogs hphase hresponse => exact .single (.goTo (.restoring hphase hresponse))
  | setValue hphase hindex => exact .single (.setValue hphase hindex)
  | addPaxosLog hphase hindex => exact .single (.addPaxosLog hphase hindex)
  | finish hphase => exact .single (.goTo (.returned _))
  | giveUp status hno => exact .single (.goTo (.returned _))
  | crash server => exact .single (.crash server)

/-- What every change keeps, and every initial state has, holds in every
reachable state. -/
theorem invariant_of_changes {I : Cluster → Prop} {setup : System → Prop}
    {C : Cluster → Action → Prop} (hinit : ∀ c, c.IsInitial → setup c.system → I c)
    (hchange : ∀ c c', I c → Change c c' → I c') (h : (cluster setup).Reachable C c) : I c := by
  refine ActionSystem.Reachable.invariant ?_ ?_ h
  · intro c hc
    exact hinit c hc.1 hc.2
  · intro c act c' _ _ hstep hI
    have hchanges := changes_of_step (step_cases hstep)
    clear hstep
    induction hchanges with
    | refl => exact hI
    | tail _ hlast ih => exact hchange _ _ ih hlast

/-! ## Configurations -/

section Servers

variable (c) (server : Addr) (service : MultiPaxosServiceImpl)

theorem setServer_self : (c.setServer server service).system.servers server = service :=
  Function.update_self ..

theorem setServer_of_ne {a : Addr} (h : a ≠ server) :
    (c.setServer server service).system.servers a = c.system.servers a :=
  Function.update_of_ne h ..

theorem goTo_self (phase : Initializing) :
    (c.goTo server phase).initializing server = phase := Function.update_self ..

theorem goTo_of_ne {a : Addr} (h : a ≠ server) (phase : Initializing) :
    (c.goTo server phase).initializing a = c.initializing a := Function.update_of_ne h ..

end Servers

/-- A property of the places in `Initialize` after a server has moved on. -/
theorem goTo_all {J : Initializing → Prop} (h : ∀ a, J (c.initializing a)) {server : Addr}
    {phase : Initializing} (hphase : J phase) (a : Addr) :
    J ((c.goTo server phase).initializing a) := by
  by_cases ha : a = server
  · subst ha
    rw [goTo_self]
    exact hphase
  · rw [goTo_of_ne c server ha]
    exact h a

/-- No step changes the address of a server or its replica list. -/
theorem Change.config (h : Change c c') (a : Addr) :
    (c'.system.servers a).myPaxosAddress = (c.system.servers a).myPaxosAddress ∧
      (c'.system.servers a).paxosStubsMap.stubs =
        (c.system.servers a).paxosStubsMap.stubs := by
  have hset : ∀ {server : Addr} {service : MultiPaxosServiceImpl},
      service.myPaxosAddress = (c.system.servers server).myPaxosAddress →
      service.paxosStubsMap.stubs = (c.system.servers server).paxosStubsMap.stubs →
      (Function.update c.system.servers server service a).myPaxosAddress =
          (c.system.servers a).myPaxosAddress ∧
        (Function.update c.system.servers server service a).paxosStubsMap.stubs =
          (c.system.servers a).paxosStubsMap.stubs := by
    intro server service haddress hstubs
    by_cases ha : a = server
    · subst ha
      rw [Function.update_self]
      exact ⟨haddress, hstubs⟩
    · rw [Function.update_of_ne ha]
      exact ⟨rfl, rfl⟩
  cases h with
  | paxos hstep hstart =>
    cases System.step_effect hstep with
    | quiet new hhistory hnew hservers => exact ⟨(hservers a).address, (hservers a).stubs⟩
    | handled run receiver msg context randomFail new hhistory hnew hhandled hother =>
      by_cases ha : a = receiver
      · subst ha
        exact ⟨hhandled.address, hhandled.stubs⟩
      · rw [hother a ha]
        exact ⟨rfl, rfl⟩
  | goTo henters => exact ⟨rfl, rfl⟩
  | follow hphase hname => exact hset rfl (PaxosStubsMap.stubs_setCoordinator _ _)
  | setValue hphase hentry => exact hset rfl rfl
  | addPaxosLog hphase hentry => exact hset rfl rfl
  | crash server => exact hset rfl rfl

/-- The replica lists of the servers stay. -/
theorem sharesReplicas_of_reachable {stubs : PaxosStubs} {C : Cluster → Action → Prop}
    (h : (cluster (System.SharesReplicas stubs)).Reachable C c) :
    System.SharesReplicas stubs c.system :=
  invariant_of_changes (I := fun c => System.SharesReplicas stubs c.system)
    (fun _ _ hsetup => hsetup) (fun _ _ hshares hchange a => (hchange.config a).2.trans (hshares a))
    h

end Cluster

/-! ## Provenance with crashes and recoveries -/

namespace System

/-- A log that comes from invocations. -/
structure LogFrom (σ : System) (key : String) (r : Int) (log : PaxosLog) : Prop where
  round : σ.RoundFrom key r
  promised : log.promisedId = 0
  accepted : log.acceptedId = 0 ∨
    log.acceptedId = 1 ∧ σ.ProposalFrom key r log.operation

variable {σ σ' : System} {db : KeyValueDataBase} {key : String} {r : Int} {log : PaxosLog}

theorem LogFrom.continues (hcont : Continues σ σ') (h : σ.LogFrom key r log) :
    σ'.LogFrom key r log where
  round := h.round.continues hcont
  promised := h.promised
  accepted := h.accepted.imp_right fun ⟨hid, hfrom⟩ => ⟨hid, hfrom.continues hcont⟩

/-- A logged round has such a log. -/
theorem DbFrom.logFrom (h : σ.DbFrom db) (hr : r ∈ db.rounds key) :
    σ.LogFrom key r (db.paxosLog key r) :=
  ⟨h.rounds key r hr, h.promised key r, h.accepted key r⟩

/-- An empty database comes from nowhere. -/
theorem dbFrom_empty (σ : System) : σ.DbFrom {} := ⟨by simp, by simp, by simp⟩

theorem DbFrom.setValue (h : σ.DbFrom db) (key value : String) :
    σ.DbFrom (db.setValue key value).2 :=
  ⟨h.rounds, h.promised, h.accepted⟩

/-- Writing such a log, over whatever was there. -/
theorem DbFrom.addPaxosLogRecovered (h : σ.DbFrom db) (hlog : σ.LogFrom key r log) :
    σ.DbFrom (db.addPaxosLogRecovered key r log) := by
  refine ⟨fun key' r' hr => ?_, fun key' r' => ?_, fun key' r' => ?_⟩
  · rw [KeyValueDataBase.addPaxosLogRecovered, KeyValueDataBase.mem_rounds_updateLog] at hr
    rcases hr with ⟨rfl, rfl⟩ | hr
    · exact hlog.round
    · exact h.rounds key' r' hr
  · rw [KeyValueDataBase.addPaxosLogRecovered, KeyValueDataBase.paxosLog_updateLog]
    split
    · exact hlog.promised
    · exact h.promised key' r'
  · rw [KeyValueDataBase.addPaxosLogRecovered, KeyValueDataBase.paxosLog_updateLog]
    split
    · rename_i hat
      rw [hat.1, hat.2]
      exact hlog.accepted
    · exact h.accepted key' r'

/-- The provenance is about the servers through their databases only. -/
theorem Provenance.of_servers (h : Provenance σ) {servers : Addr → MultiPaxosServiceImpl}
    (hdb : ∀ a, σ.DbFrom (servers a).kvDb) : Provenance { σ with servers := servers } where
  wf := h.wf
  positive := h.positive
  db a := ⟨(hdb a).rounds, (hdb a).promised, (hdb a).accepted⟩
  sent := h.sent
  inFlight := h.inFlight
  handled := h.handled
  adopted := h.adopted
  returned := h.returned

end System

namespace Cluster

variable {c c' : Cluster}

/-- The logs of a snapshot come from invocations. -/
def SnapshotFrom (σ : System) : Initializing → Prop
  | .restoring _ paxosLogs => ∀ key r log, (key, r, log) ∈ paxosLogs → σ.LogFrom key r log
  | _ => True

theorem SnapshotFrom.continues {σ σ' : System} (hcont : System.Continues σ σ')
    {phase : Initializing} (h : SnapshotFrom σ phase) : SnapshotFrom σ' phase := by
  cases phase with
  | restoring kvMap paxosLogs => exact fun key r log hmem => (h key r log hmem).continues hcont
  | _ => trivial

/-- A crash leaves no snapshot that was not there. -/
theorem interrupted_cases (server : Addr) (phase : Initializing) :
    interrupted server phase = phase ∨ interrupted server phase = .returned recoveryFailed := by
  unfold interrupted
  split
  · split
    · exact Or.inr rfl
    · exact Or.inl rfl
  · exact Or.inl rfl

/-- The places in `Initialize` after a crash. -/
theorem crash_all {J : Initializing → Prop} (h : ∀ a, J (c.initializing a)) (hidle : J .idle)
    (hfailed : J (.returned recoveryFailed)) (server a : Addr) :
    J (Function.update (fun a => interrupted server (c.initializing a)) server .idle a) := by
  by_cases ha : a = server
  · subst ha
    rw [Function.update_self]
    exact hidle
  · rw [Function.update_of_ne ha]
    rcases interrupted_cases server (c.initializing a) with heq | heq
    · rw [heq]
      exact h a
    · rw [heq]
      exact hfailed

/-- Where a cluster is, and where what it holds comes from. -/
structure Origins (c : Cluster) : Prop where
  address : ∀ a, (c.system.servers a).myPaxosAddress = a
  provenance : c.system.Provenance
  snapshots : ∀ a, SnapshotFrom c.system (c.initializing a)
  admitted : ∀ (i : Nat) (inv : Invocation), c.system.runs[i]? = some inv →
    inv.request.Admitted c.system.servers

theorem origins_init (h : c.IsInitial) : Origins c where
  address := h.address
  provenance := System.provenance_init h.system
  snapshots a := by
    rw [h.initializing a]
    trivial
  admitted i inv hi := by simp [h.system.runs] at hi

/-- The invocations only evolve and grow. -/
theorem Change.continues (hwf : c.system.WfRuns) (h : Change c c') :
    System.Continues c.system c'.system := by
  cases h with
  | paxos hstep hstart => exact System.step_continues hwf hstep
  | goTo henters => exact System.continues_of_runs_eq rfl
  | follow hphase hname => exact System.continues_of_runs_eq rfl
  | setValue hphase hentry => exact System.continues_of_runs_eq rfl
  | addPaxosLog hphase hentry => exact System.continues_of_runs_eq rfl
  | crash server => exact System.continues_of_runs_eq rfl

/-- A log that `Recover` has copied is a log of the coordinator. -/
theorem logged_of_mem_writes {coordinator : Addr} {kvMap : DataMap} {response : RecoverResponse}
    (hresponse : response =
      { kvMap := kvMap, paxosLogs := (c.system.servers coordinator).kvDb.paxosLogsMap })
    {key : String} {r : Int} {log : PaxosLog}
    (hmem : (key, r, log) ∈ (RestoreOrder.byKey response).writes) :
    r ∈ (c.system.db coordinator).rounds key ∧
      (c.system.db coordinator).paxosLog key r = log := by
  have hlookup : ((c.system.db coordinator).logsOf key).lookup r = some log := by
    rw [RestoreOrder.mem_writes, hresponse] at hmem
    exact (MultiPaxosServiceImpl.lookup_recover _).mp hmem
  constructor
  · rw [KeyValueDataBase.rounds, Finmap.mem_keys, Finmap.mem_iff]
    exact ⟨log, hlookup⟩
  · rw [KeyValueDataBase.paxosLog, hlookup]
    rfl

/-- The logs that `Recover` has copied come from invocations. -/
theorem Origins.mem_writes (h : Origins c) {coordinator : Addr} {kvMap : DataMap}
    {response : RecoverResponse}
    (hresponse : response =
      { kvMap := kvMap, paxosLogs := (c.system.servers coordinator).kvDb.paxosLogsMap })
    {key : String} {r : Int} {log : PaxosLog}
    (hmem : (key, r, log) ∈ (RestoreOrder.byKey response).writes) :
    c.system.LogFrom key r log := by
  obtain ⟨hr, hlog⟩ := logged_of_mem_writes hresponse hmem
  exact hlog ▸ (h.provenance.db coordinator).logFrom hr

theorem Origins.provenance_change (h : Origins c) (hchange : Change c c') :
    c'.system.Provenance := by
  have hset : ∀ {server : Addr} {service : MultiPaxosServiceImpl},
      c.system.DbFrom service.kvDb → ∀ a,
      c.system.DbFrom (Function.update c.system.servers server service a).kvDb := by
    intro server service hdb a
    by_cases ha : a = server
    · subst ha
      rw [Function.update_self]
      exact hdb
    · rw [Function.update_of_ne ha]
      exact h.provenance.db a
  cases hchange with
  | paxos hstep hstart => exact System.provenance_step h.provenance hstep
  | goTo henters => exact h.provenance
  | @follow server coordinator todo found hphase hname =>
    exact h.provenance.of_servers (hset (h.provenance.db server))
  | @setValue server index key value kvMap paxosLogs hphase hentry =>
    exact h.provenance.of_servers (hset ((h.provenance.db server).setValue key value))
  | @addPaxosLog server index key round log paxosLogs hphase hentry =>
    have hsnapshot := h.snapshots server
    rw [hphase] at hsnapshot
    have hlog := hsnapshot key round log (List.mem_of_getElem? hentry)
    exact h.provenance.of_servers (hset ((h.provenance.db server).addPaxosLogRecovered hlog))
  | crash server => exact h.provenance.of_servers (hset (System.dbFrom_empty _))

theorem Origins.snapshots_change (h : Origins c) (hchange : Change c c') (a : Addr) :
    SnapshotFrom c'.system (c'.initializing a) := by
  have hcont := hchange.continues h.provenance.wf
  refine SnapshotFrom.continues hcont ?_
  cases hchange with
  | paxos hstep hstart => exact h.snapshots a
  | goTo henters =>
    refine goTo_all h.snapshots ?_ a
    cases henters with
    | restoring hphase hresponse => exact fun key r log hmem => h.mem_writes hresponse hmem
    | _ => trivial
  | follow hphase hname => exact h.snapshots a
  | @setValue server index key value kvMap paxosLogs hphase hentry =>
    have hsnapshot := h.snapshots server
    rw [hphase] at hsnapshot
    refine goTo_all (c := c.setServer server _) h.snapshots ?_ a
    exact hsnapshot
  | @addPaxosLog server index key round log paxosLogs hphase hentry =>
    have hsnapshot := h.snapshots server
    rw [hphase] at hsnapshot
    refine goTo_all (c := c.setServer server _) h.snapshots ?_ a
    exact fun key r log hmem => hsnapshot key r log (List.mem_of_mem_eraseIdx hmem)
  | crash server => exact crash_all h.snapshots trivial trivial server a

/-- What is admitted depends on the replica lists only. -/
theorem admitted_congr {servers servers' : Addr → MultiPaxosServiceImpl} {request : Request}
    (hstubs : ∀ a, (servers' a).paxosStubsMap.stubs = (servers a).paxosStubsMap.stubs)
    (h : request.Admitted servers) : request.Admitted servers' := by
  cases h with
  | update hupdate hkey => exact .update hupdate hkey
  | @election a hlisted =>
    refine .election ?_
    rw [hstubs]
    exact hlisted

theorem Origins.admitted_change (h : Origins c) (hchange : Change c c') {i : Nat}
    {inv : Invocation} (hi : c'.system.runs[i]? = some inv) :
    inv.request.Admitted c'.system.servers := by
  have hstubs : ∀ a, (c'.system.servers a).paxosStubsMap.stubs =
      (c.system.servers a).paxosStubsMap.stubs := fun a => (hchange.config a).2
  refine admitted_congr hstubs ?_
  cases hchange with
  | @paxos act σ hstep hstart =>
    rcases System.step_runs_back h.provenance.wf hstep hi with
      ⟨inv0, hi0, hevolves⟩ | ⟨server, request, context, rfl, hrefusal, _, rfl⟩
    · rw [hevolves.request]
      exact h.admitted i inv0 hi0
    · show request.Admitted _
      rcases hstart server request context rfl with hupdate | ⟨s, hlisted, rfl⟩
      · refine .update hupdate fun hkey => ?_
        obtain ⟨coordinator, rfl⟩ := Request.election_of_refusal hrefusal hkey
        exact hupdate
      · rw [ownElection, h.address]
        rw [h.address] at hlisted
        exact .election hlisted
  | goTo henters => exact h.admitted i inv hi
  | follow hphase hname => exact h.admitted i inv hi
  | setValue hphase hentry => exact h.admitted i inv hi
  | addPaxosLog hphase hentry => exact h.admitted i inv hi
  | crash server => exact h.admitted i inv hi

theorem origins_change (h : Origins c) (hchange : Change c c') : Origins c' where
  address a := (hchange.config a).1.trans (h.address a)
  provenance := h.provenance_change hchange
  snapshots := h.snapshots_change hchange
  admitted _ _ := h.admitted_change hchange

/-- The origins are known in every reachable state. -/
theorem origins_of_reachable {setup : System → Prop} {C : Cluster → Action → Prop}
    (h : (cluster setup).Reachable C c) : Origins c :=
  invariant_of_changes (fun _ hinit _ => origins_init hinit)
    (fun _ _ horigins hchange => origins_change horigins hchange) h

end Cluster

end PaxosKVStore
