import PaxosKVStore.Deployment
import PaxosKVStore.Origins
import PaxosKVStore.Schedule

/-!
# A deployment, call by call

`Deployment` takes one step for a whole start, request or crash, and `Cluster`
takes one for each call between two servers and for each entry that a recovery
copies.  Every run of the deployment is a run of the cluster: its steps are
those schedules in which nothing else happens between the calls.

`Executes` is a piece of such a schedule.  `Implements` relates the states in
between, where every invocation has returned and no call is in flight, and says
that the updates which the cluster has run are those that the deployment has
answered, in the same order and with the same codes.
-/

namespace PaxosKVStore

/-- The update that an invocation has run, with the server that ran it and the
code that it returned. -/
def Invocation.ran (inv : Invocation) : Option (Addr × Request × StatusCode) :=
  match inv.phase with
  | .returned status =>
      if inv.request.IsUpdate then some (inv.server, inv.request, status.code) else none
  | _ => none

/-- The update that was run for an answer.  The reserved key is refused before
anything is run. -/
def Answer.ran (answer : Answer) (request : ClientRequest) :
    Option (Addr × Request × StatusCode) :=
  request.update.bind fun update =>
    if update.key = "coordinator" then none
    else answer.handledBy.map fun handler => (handler, update, answer.status.code)

theorem Invocation.ran_of_returned {inv : Invocation} {status : Status}
    (h : inv.phase = .returned status) : inv.ran =
      if inv.request.IsUpdate then some (inv.server, inv.request, status.code) else none := by
  rw [ran, h]

namespace Cluster

variable {setup : System → Prop} {c c' c'' : Cluster} {servers servers' : Servers}
  {new new' : List Invocation} {server : Addr}

/-- Some steps of the cluster, at the end of which the servers are `servers`
and the invocations `new` have come and returned. -/
structure Executes (setup : System → Prop) (c c' : Cluster) (servers : Servers)
    (new : List Invocation) : Prop where
  leads : (cluster setup).Leads (fun _ => True) c c'
  servers : c'.system.servers = servers
  runs : c'.system.runs = c.system.runs ++ new
  returned : ∀ inv ∈ new, ∃ status, inv.phase = .returned status
  inFlight : c'.system.inFlight = c.system.inFlight
  stopped : c'.stopped = c.stopped

theorem Executes.refl (c : Cluster) : Executes setup c c c.system.servers [] where
  leads := .refl c
  servers := rfl
  runs := (List.append_nil _).symm
  returned := by simp
  inFlight := rfl
  stopped := rfl

theorem Executes.trans (h : Executes setup c c' servers new)
    (h' : Executes setup c' c'' servers' new') :
    Executes setup c c'' servers' (new ++ new') where
  leads := h.leads.trans h'.leads
  servers := h'.servers
  runs := by rw [h'.runs, h.runs, List.append_assoc]
  returned inv hinv := (List.mem_append.mp hinv).elim (h.returned inv) (h'.returned inv)
  inFlight := h'.inFlight.trans h.inFlight
  stopped := h'.stopped.trans h.stopped

/-- A step of the cluster that starts no invocation. -/
theorem executes_step (act : Action) (hstep : c.step act = some c')
    (hservers : c'.system.servers = servers) (hruns : c'.system.runs = c.system.runs)
    (hflight : c'.system.inFlight = c.system.inFlight) (hstopped : c'.stopped = c.stopped) :
    Executes setup c c' servers [] where
  leads := .of_step trivial hstep
  servers := hservers
  runs := hruns.trans (List.append_nil _).symm
  returned := by simp
  inFlight := hflight
  stopped := hstopped

/-- The steps of an invocation whose server is up are steps of the cluster. -/
theorem leads_paxos {run : Nat} {σ : System} (hrun : run ∉ c.stopped)
    (h : (paxos setup).Leads (System.OfRun run) c.system σ) :
    (cluster setup).Leads (fun _ => True) c { c with system := σ } := by
  refine h.lift (U := cluster setup) (fun σ => { c with system := σ }) Action.paxos
    (fun _ _ => trivial) fun σ act σ' hown hstep => ?_
  have hpermits : { c with system := σ }.Permits act := by
    cases act with
    | start server request context => cases hown
    | call i fate randomFail =>
      obtain rfl : i = run := hown
      exact hrun
    | advance i =>
      obtain rfl : i = run := hown
      exact hrun
    | arrive index context randomFail => trivial
  have hsystem : σ.step act = some σ' := hstep
  show Cluster.step { c with system := σ } (.paxos act) = _
  rw [step, if_pos hpermits, hsystem]
  rfl

/-- An action that enters `RunPaxos`, and then the invocation to its end. -/
theorem executes_run {act : Action} (o : Outcomes) {request : Request}
    (hnew : ∀ run ∈ c.stopped, run < c.system.runs.length)
    (hrefusal : request.refusal {} = none)
    (hstep : c.step act = some { c' with system := c.system.start server request {} })
    (hstopped : c'.stopped = c.stopped) :
    ∃ σ inv, Executes setup c { c' with system := σ }
        (runPaxos o c.system.servers server request).2 [inv] ∧
      inv.server = server ∧ inv.request = request ∧
      inv.phase = .returned (runPaxos o c.system.servers server request).1 := by
  have hentered := @System.start_eq c.system server request hrefusal
  obtain ⟨σ, inv, hleads, hruns, hphase, hservers, hflight⟩ :=
    @System.leads_runPaxos setup (c.system.start server request {}) c.system.runs o
      c.system.servers server request (by rw [hentered]) (by rw [hentered])
  have hsame : inv.server = server ∧ inv.request = request := by
    obtain ⟨inv', hinv', hserver, hrequest⟩ := System.leads_keeps hleads
      (show (c.system.start server request {}).runs[c.system.runs.length]? =
        some (Invocation.enter server (c.system.servers server) request) by
          rw [hentered, List.getElem?_concat_length])
    rw [hruns, List.getElem?_concat_length] at hinv'
    cases hinv'
    exact ⟨hserver, hrequest⟩
  refine ⟨σ, inv, ⟨?_, hservers, hruns, ?_, ?_, hstopped⟩, hsame.1, hsame.2, hphase⟩
  · refine .trans (.of_step trivial hstep) ?_
    refine @leads_paxos setup { c' with system := c.system.start server request {} }
      c.system.runs.length σ (fun hmem => ?_) hleads
    rw [hstopped] at hmem
    exact absurd (hnew _ hmem) (lt_irrefl _)
  · simpa using ⟨_, hphase⟩
  · rw [hflight, hentered]

/-! ## Requests -/

section Requests

variable {o : Outcomes} {reach : Addr → Bool} {randomFail : Message → Addr → Bool}
  {request : ClientRequest} {answer : Answer} {stubs : PaxosStubs}

/-- What a handler of a client request does. -/
theorem executes_handleRequest (hnew : ∀ run ∈ c.stopped, run < c.system.runs.length)
    (hservers : c.system.servers = servers)
    (h : servers.handleRequest o server request = (answer, servers')) :
    ∃ σ new, Executes setup c { c with system := σ } servers' new ∧
      new.filterMap Invocation.ran = (answer.ran request).toList := by
  subst hservers
  cases hupdate : request.update with
  | none =>
    rw [handleRequest_get hupdate] at h
    cases h
    refine ⟨c.system, [], .refl c, ?_⟩
    rw [Answer.ran, hupdate]
    rfl
  | some update =>
    rw [handleRequest_of_update hupdate] at h
    cases h
    have hby : Answer.ran
        { status := (Servers.update c.system.servers o server update).1
          handledBy := some server } request =
        if update.key = "coordinator" then none
        else some (server, update,
          (Servers.update c.system.servers o server update).1.code) := by
      rw [Answer.ran, hupdate]
      rfl
    rw [hby]
    have hisUpdate := ClientRequest.isUpdate_of_update hupdate
    rcases @update_cases c.system.servers server request o update hupdate with
      ⟨hkey, _, hsame⟩ | ⟨hkey, hrun⟩
    · refine ⟨c.system, [], by rw [hsame]; exact .refl c, ?_⟩
      rw [if_pos hkey]
      rfl
    · have hpermits : c.Permits (.start server update) := hisUpdate
      have hstep : c.step (.paxos (.start server update)) =
          some { c with system := c.system.start server update {} } := by
        rw [step, if_pos hpermits]
        rfl
      obtain ⟨σ, inv, hexecutes, hserver, hrequest, hphase⟩ :=
        executes_run o hnew (refusal_of_isUpdate hisUpdate hkey) hstep rfl
      rw [hrun]
      refine ⟨σ, [inv], hexecutes, ?_⟩
      rw [if_neg hkey, List.filterMap_cons, Invocation.ran_of_returned hphase, hrequest,
        if_pos hisUpdate, hserver]
      rfl

/-- A server that calls `ElectCoordinator` at itself has a stub to itself. -/
theorem getStub_of_electNewCoordinator {e : StartUp} {status : Status}
    (hsound : ∀ a, SoundServer stubs a (servers a))
    (h : servers.electNewCoordinator e server = some (status, servers')) :
    (servers server).paxosStubsMap.getStub (servers server).myPaxosAddress = some server := by
  unfold Servers.electNewCoordinator at h
  simp only at h
  split at h
  · cases h
  · rename_i stub hstub
    rw [hstub, (getStub_eq_some hstub).1, (hsound server).address]

/-- What an election of a front-end does. -/
theorem executes_electNewCoordinator {e : StartUp} {status : Status}
    (hsound : ∀ a, SoundServer stubs a (servers a))
    (hnew : ∀ run ∈ c.stopped, run < c.system.runs.length)
    (hservers : c.system.servers = servers)
    (h : servers.electNewCoordinator e server = some (status, servers')) :
    ∃ σ new, Executes setup c { c with system := σ } servers' new ∧
      new.filterMap Invocation.ran = [] := by
  subst hservers
  have hstub := getStub_of_electNewCoordinator hsound h
  obtain ⟨_, rfl | rfl, _⟩ := electNewCoordinator_cases hsound h
  · exact ⟨c.system, [], .refl c, rfl⟩
  · have hown : ownElection (c.system.servers server) =
        .electCoordinator "coordinator" server := by
      rw [ownElection, (hsound server).address]
    have hstep : c.step (.electNewCoordinator server {}) =
        some { c with
          system := c.system.start server (.electCoordinator "coordinator" server) {} } := by
      simp only [step, hstub, hown]
    obtain ⟨σ, inv, hexecutes, _, hrequest, hphase⟩ := executes_run e.outcomes hnew rfl hstep rfl
    refine ⟨σ, [inv], hexecutes, ?_⟩
    rw [List.filterMap_cons, Invocation.ran_of_returned hphase, hrequest]
    rfl

/-- What a request does, from its arrival at a front-end to its answer. -/
theorem executes_requestFlow (hsound : ∀ a, SoundServer stubs a (servers a))
    (hnew : ∀ run ∈ c.stopped, run < c.system.runs.length)
    (hservers : c.system.servers = servers)
    (h : servers.requestFlow reach randomFail server request = some (answer, servers')) :
    ∃ σ new, Executes setup c { c with system := σ } servers' new ∧
      new.filterMap Invocation.ran = (answer.ran request).toList := by
  obtain ⟨chosen, helected, hend⟩ := requestFlow_cases h
  -- first the election, if there is one
  obtain ⟨σ₁, new₁, hexecutes₁, hran₁⟩ : ∃ σ new,
      Executes setup c { c with system := σ } chosen new ∧
        new.filterMap Invocation.ran = [] := by
    rcases helected with rfl | ⟨status, helection⟩
    · exact ⟨c.system, [], hservers ▸ .refl c, rfl⟩
    · exact executes_electNewCoordinator hsound hnew hservers helection
  rcases hend with ⟨hnone, rfl, _⟩ | ⟨handler, _, handled, hhandled, hby, _, hcode⟩
  · refine ⟨σ₁, new₁, hexecutes₁, ?_⟩
    rw [hran₁, Answer.ran, hnone]
    cases request.update with
    | none => rfl
    | some update =>
      by_cases hkey : update.key = "coordinator" <;> simp
  · have hnew₁ : ∀ run ∈ c.stopped, run < σ₁.runs.length := by
      intro run hrun
      have hlength := congrArg List.length hexecutes₁.runs
      rw [List.length_append] at hlength
      have hlt := hnew run hrun
      show run < σ₁.runs.length
      rw [hlength]
      omega
    obtain ⟨σ₂, new₂, hexecutes₂, hran₂⟩ :=
      @executes_handleRequest setup { c with system := σ₁ } _ _ _ _ _ _ hnew₁
        hexecutes₁.servers hhandled
    refine ⟨σ₂, new₁ ++ new₂, hexecutes₁.trans hexecutes₂, ?_⟩
    rw [List.filterMap_append, hran₁, hran₂, List.nil_append, Answer.ran, Answer.ran, hby,
      handledBy_handleRequest hhandled, hcode]

end Requests

/-! ## The start of a server -/

section Start

variable {stubs : PaxosStubs} {e : StartUp} {status : Status}

theorem goTo_goTo (c : Cluster) (server : Addr) (phase phase' : Initializing) :
    (c.goTo server phase).goTo server phase' = c.goTo server phase' := by
  simp [goTo]

theorem goTo_eq_self {phase : Initializing} (h : c.initializing server = phase) :
    c.goTo server phase = c := by
  subst h
  simp [goTo]

theorem goTo_setServer (c : Cluster) (server : Addr) (phase phase' : Initializing)
    (s : MultiPaxosServiceImpl) : ((c.goTo server phase).setServer server s).goTo server phase' =
      (c.setServer server s).goTo server phase' := by
  simp [goTo, setServer]

/-- A step of `Initialize` that changes at most the server. -/
theorem executes_goTo {step : InitializeStep} {s : MultiPaxosServiceImpl} {phase : Initializing}
    (hstep : c.initializeServer server step = some ((c.setServer server s).goTo server phase)) :
    Executes setup c ((c.setServer server s).goTo server phase)
      (Function.update c.system.servers server s) [] :=
  executes_step (.initializeServer server step) hstep rfl rfl rfl rfl

/-- A step of `Initialize` that changes no server. -/
theorem executes_phase {step : InitializeStep} {phase : Initializing}
    (hstep : c.initializeServer server step = some (c.goTo server phase)) :
    Executes setup c (c.goTo server phase) c.system.servers [] :=
  executes_step (.initializeServer server step) hstep rfl rfl rfl rfl

/-- Another step of a server in `Initialize` that changes no server. -/
theorem Executes.goTo (step : InitializeStep) {phase : Initializing} (phase' : Initializing)
    (h : Executes setup c (c'.goTo server phase) servers new)
    (hstep : (c'.goTo server phase).initializeServer server step =
      some ((c'.goTo server phase).goTo server phase')) :
    Executes setup c (c'.goTo server phase') servers new := by
  have hend : Executes setup _ _ _ [] := executes_phase hstep
  rw [h.servers, goTo_goTo] at hend
  simpa using h.trans hend

/-- The discovery loop. -/
theorem executes_discovery (todo : List Addr) (found : Discovered)
    (hphase : c.initializing server = .discovering todo found) :
    Executes setup c
      (c.goTo server (.discovering [] (todo.foldl (Discovered.ask e c.system.servers) found)))
      c.system.servers [] := by
  induction todo generalizing c found with
  | nil =>
    rw [List.foldl_nil, goTo_eq_self hphase]
    exact .refl c
  | cons a rest ih =>
    have hstep : c.initializeServer server (.ask (e.discovery a)) =
        some (c.goTo server (.discovering rest (found.ask e c.system.servers a))) := by
      rw [Discovered.ask_eq_heard]
      simp only [initializeServer, hphase]
    have hrest := ih (found.ask e c.system.servers a)
      (goTo_self c server (.discovering rest (found.ask e c.system.servers a)))
    rw [goTo_goTo] at hrest
    exact (executes_phase hstep).trans hrest

/-- The discovery, with what it finds. -/
theorem executes_getCoordinator (hphase : c.initializing server = .idle)
    (h : Servers.getCoordinator c.system.servers e server = (status, servers')) :
    Executes setup c
      ({ c with system := { c.system with servers := servers' } }.goTo server
        (if status.ok then .recovering else .electing none)) servers' [] := by
  have hstart : c.initializeServer server .start = some (c.goTo server
      (.discovering (c.system.servers server).paxosStubsMap.getPaxosStubs {})) := by
    simp only [initializeServer, hphase]
  have hloop := @executes_discovery setup _ server e _ {} (goTo_self c server
    (.discovering (c.system.servers server).paxosStubsMap.getPaxosStubs {}))
  rw [goTo_goTo] at hloop
  have hbegin : Executes setup c _ _ _ := executes_phase hstart
  have hasked : Executes setup c (c.goTo server (.discovering []
      ((c.system.servers server).paxosStubsMap.getPaxosStubs.foldl
        (Discovered.ask e c.system.servers) {}))) c.system.servers [] := hbegin.trans hloop
  -- the code after the loop
  simp only [Servers.getCoordinator] at h
  generalize (c.system.servers server).paxosStubsMap.getPaxosStubs.foldl
    (Discovered.ask e c.system.servers) {} = found at h hasked
  have hphase' := goTo_self c server (.discovering [] found)
  split at h
  · rename_i coordinator hname
    split at h
    · rename_i hlive
      cases h
      refine hasked.goTo .discovered (.electing none) ?_
      simp only [initializeServer, hphase', hname, if_pos hlive]
    · rename_i hlive
      cases h
      have hstep : (c.goTo server (.discovering [] found)).initializeServer server .discovered =
          some (((c.goTo server (.discovering [] found)).setServer server
            { c.system.servers server with
              paxosStubsMap := ((c.system.servers server).paxosStubsMap.setCoordinator
                coordinator).2 }).goTo server .recovering) := by
        simp only [initializeServer, hphase', hname, if_neg hlive]
        rfl
      have hend : Executes setup _ _ _ _ := executes_goTo hstep
      rw [goTo_setServer] at hend
      exact hasked.trans hend
  · rename_i hname
    cases h
    refine hasked.goTo .discovered (.electing none) ?_
    simp only [initializeServer, hphase']

/-- The call of `ElectCoordinator` by a server at itself, with the invocation
that it starts. -/
theorem executes_elect (o : Outcomes) (hphase : c.initializing server = .electing none)
    (hstub : (c.system.servers server).paxosStubsMap.getStub
      (c.system.servers server).myPaxosAddress = some server)
    (hown : ownElection (c.system.servers server) = .electCoordinator "coordinator" server)
    (hnew : ∀ run ∈ c.stopped, run < c.system.runs.length) :
    ∃ σ inv, Executes setup c
        ({ c with system := σ }.goTo server (.electing (some c.system.runs.length)))
        (runPaxos o c.system.servers server (.electCoordinator "coordinator" server)).2 [inv] ∧
      σ.runs[c.system.runs.length]? = some inv ∧ [inv].filterMap Invocation.ran = [] ∧
      inv.phase = .returned
        (runPaxos o c.system.servers server (.electCoordinator "coordinator" server)).1 := by
  have helect : c.step (.initializeServer server .elect) =
      some { c.goTo server (.electing (some c.system.runs.length)) with
        system := c.system.start server (.electCoordinator "coordinator" server) {} } := by
    simp only [step, initializeServer, hphase, hstub, hown]
    rfl
  obtain ⟨σ, inv, hexecutes, _, hrequest, hreturned⟩ :=
    @executes_run setup c _ server _ o _ hnew rfl helect rfl
  have hruns : σ.runs = c.system.runs ++ [inv] := hexecutes.runs
  refine ⟨σ, inv, hexecutes, ?_, ?_, hreturned⟩
  · rw [hruns, List.getElem?_concat_length]
  · rw [List.filterMap_cons, Invocation.ran_of_returned hreturned, hrequest]
    rfl

/-- The election of a server that starts. -/
theorem executes_election (hphase : c.initializing server = .electing none)
    (hsound : ∀ a, SoundServer stubs a (c.system.servers a))
    (hnew : ∀ run ∈ c.stopped, run < c.system.runs.length)
    (h : Servers.electNewCoordinator c.system.servers e server = some (status, servers')) :
    ∃ σ new, Executes setup c
        ({ c with system := σ }.goTo server
          (if status.ok then .recovering else .returned (electionFailed status))) servers' new ∧
      new.filterMap Invocation.ran = [] := by
  have hstub := getStub_of_electNewCoordinator hsound h
  have hown : ownElection (c.system.servers server) =
      .electCoordinator "coordinator" server := by
    rw [ownElection, (hsound server).address]
  obtain ⟨σ, inv, hexecutes, hrun, hran, hreturned⟩ :=
    @executes_elect setup c server e.outcomes hphase hstub hown hnew
  have hphase' := goTo_self { c with system := σ } server
    (.electing (some c.system.runs.length))
  rw [(hsound server).address] at hstub
  unfold Servers.electNewCoordinator at h
  simp only [(hsound server).address, hstub] at h
  -- what becomes of the answer
  cases hfate : e.election server with
  | delivered =>
    simp only [hfate, Option.some.injEq] at h
    obtain ⟨hstatus, rfl⟩ := Prod.mk.inj h
    rw [hstatus] at hreturned
    refine ⟨σ, [inv], hexecutes.goTo .elected _ ?_, hran⟩
    simp only [initializeServer, hphase']
    simp only [Cluster.goTo, hrun, hreturned]
    split <;> rfl
  | lost =>
    simp only [hfate, Option.some.injEq, Prod.mk.injEq] at h
    obtain ⟨rfl, rfl⟩ := h
    have hend : Executes setup c _ _ _ := @executes_phase setup c server (.fail unavailable)
      (.returned (electionFailed unavailable)) (by simp only [initializeServer, hphase]; rfl)
    exact ⟨c.system, [], hend, rfl⟩
  | replyLost =>
    simp only [hfate, Option.some.injEq, Prod.mk.injEq] at h
    obtain ⟨rfl, rfl⟩ := h
    refine ⟨σ, [inv], hexecutes.goTo (.fail deadlineExceeded) _ ?_, hran⟩
    simp only [initializeServer, hphase']
    rfl

/-- Replace the database of a server. -/
def setKvDb (c : Cluster) (server : Addr) (kvDb : KeyValueDataBase) : Cluster :=
  c.setServer server { c.system.servers server with kvDb := kvDb }

theorem setKvDb_self (c : Cluster) (server : Addr) :
    c.setKvDb server (c.system.servers server).kvDb = c := by
  show c.setServer server (c.system.servers server) = c
  simp [setServer]

theorem kvDb_setKvDb (c : Cluster) (server : Addr) (kvDb : KeyValueDataBase) :
    ((c.setKvDb server kvDb).system.servers server).kvDb = kvDb := by
  simp [setKvDb, setServer]

theorem setKvDb_goTo (c : Cluster) (server : Addr) (kvDb kvDb' : KeyValueDataBase)
    (phase phase' : Initializing) :
    (((c.setKvDb server kvDb).goTo server phase).setKvDb server kvDb').goTo server phase' =
      (c.setKvDb server kvDb').goTo server phase' := by
  simp [setKvDb, setServer, goTo]

/-- A loop of a recovery that writes one item after the other. -/
theorem executes_writes {Item : Type} (phase : List Item → Initializing)
    (write : KeyValueDataBase → Item → KeyValueDataBase)
    (hwrite : ∀ (c : Cluster) (item : Item) (rest : List Item),
      c.initializing server = phase (item :: rest) →
      ∃ step, c.initializeServer server step = some ((c.setKvDb server
        (write (c.system.servers server).kvDb item)).goTo server (phase rest)))
    (items : List Item) (hphase : c.initializing server = phase items) :
    ∃ c', Executes setup c c' c'.system.servers [] ∧ c' =
      (c.setKvDb server (items.foldl write (c.system.servers server).kvDb)).goTo server
        (phase []) := by
  induction items generalizing c with
  | nil =>
    refine ⟨c, .refl c, ?_⟩
    rw [List.foldl_nil, setKvDb_self, goTo_eq_self hphase]
  | cons item rest ih =>
    obtain ⟨step, hstep⟩ := hwrite c item rest hphase
    have hfirst : Executes setup c _ _ [] := executes_goTo hstep
    obtain ⟨c', hrest, hc'⟩ := ih (goTo_self (c.setKvDb server
      (write (c.system.servers server).kvDb item)) server (phase rest))
    refine ⟨c', hfirst.trans hrest, ?_⟩
    rw [hc', setKvDb_goTo, List.foldl_cons]
    congr 3
    exact kvDb_setKvDb ..

/-- Both loops of a recovery. -/
theorem executes_restore {response : RecoverResponse} (order : RestoreOrder response)
    (hphase : c.initializing server = .restoring order.kvMap order.writes) :
    ∃ c', Executes setup c c' c'.system.servers [] ∧ c' =
      (c.setKvDb server ((c.system.servers server).kvDb.restoreIn order)).goTo server
        (.restoring [] []) := by
  obtain ⟨c₁, hvalues, hc₁⟩ := @executes_writes setup c server _
    (fun kvMap => .restoring kvMap order.writes) (fun db kv => (db.setValue kv.1 kv.2).2)
    (fun c kv rest hphase => ⟨.setValue 0, by simp only [initializeServer, hphase]; rfl⟩)
    order.kvMap hphase
  obtain ⟨c₂, hlogs, hc₂⟩ := @executes_writes setup c₁ server _ (.restoring [])
    (fun db write => db.addPaxosLogRecovered write.1 write.2.1 write.2.2)
    (fun c write rest hphase => ⟨.addPaxosLog 0, by simp only [initializeServer, hphase]; rfl⟩)
    order.writes (by rw [hc₁]; exact goTo_self ..)
  refine ⟨c₂, hvalues.trans hlogs, ?_⟩
  rw [hc₂, hc₁, setKvDb_goTo, KeyValueDataBase.restoreIn_eq_foldl]
  congr 3
  exact kvDb_setKvDb ..

/-- The recovery of a server that starts. -/
theorem executes_getRecovery (hphase : c.initializing server = .recovering)
    (h : Servers.getRecovery c.system.servers e server = some (status, servers')) :
    ∃ c', Executes setup c c' servers' [] ∧
      c'.initializing = Function.update c.initializing server
        (.returned (if status.ok then Status.OK
          else { code := .aborted, message := "GetRecovery Failed: " ++ status.message })) := by
  unfold Servers.getRecovery at h
  simp only at h
  split at h
  · cases h
  · rename_i coordinator hstub
    split at h
    · cases h
      have hcopied : c.initializeServer server .copyDataMap = some (c.goTo server
          (.copying coordinator (c.system.servers coordinator).kvDb.dataMap)) := by
        simp only [initializeServer, hphase, hstub]
      have hcopy : Executes setup c (c.goTo server
          (.restoring (RestoreOrder.byKey (c.system.servers coordinator).recover).kvMap
            (RestoreOrder.byKey (c.system.servers coordinator).recover).writes))
          c.system.servers [] := by
        refine (executes_phase hcopied).goTo .copyPaxosLogs _ ?_
        simp only [initializeServer, goTo_self]
        rfl
      obtain ⟨_, hrestore, rfl⟩ := executes_restore
        (.byKey (c.system.servers coordinator).recover) (goTo_self c server
          (.restoring (RestoreOrder.byKey (c.system.servers coordinator).recover).kvMap
            (RestoreOrder.byKey (c.system.servers coordinator).recover).writes))
      rw [KeyValueDataBase.restore_eq_restoreIn]
      refine ⟨_, (hcopy.trans hrestore).goTo .finish (.returned Status.OK) ?_, ?_⟩
      · simp only [initializeServer, goTo_self]
      · simp [goTo, setKvDb, setServer]
    · cases h
      have hfailed : c.initializeServer server (.fail unavailable) =
          some (c.goTo server (.returned recoveryFailed)) := by
        simp only [initializeServer, hphase, hstub]
        rfl
      exact ⟨_, executes_phase hfailed, rfl⟩

/-- How a server that starts comes to a coordinator: it finds one, or calls an
election. -/
theorem executes_choice {getStatus electStatus : Status} {found chosen : Servers}
    (hidle : c.initializing server = .idle)
    (hsound : ∀ a, SoundServer stubs a (c.system.servers a))
    (hnew : ∀ run ∈ c.stopped, run < c.system.runs.length)
    (hget : Servers.getCoordinator c.system.servers e server = (getStatus, found))
    (hchosen : (if getStatus.ok = true then some (Status.OK, found)
      else found.electNewCoordinator e server) = some (electStatus, chosen)) :
    ∃ c' new, Executes setup c c' chosen new ∧ new.filterMap Invocation.ran = [] ∧
      c'.initializing = Function.update c.initializing server
        (if electStatus.ok then .recovering else .returned (electionFailed electStatus)) := by
  have hdiscovery : Executes setup c _ found [] := executes_getCoordinator hidle hget
  rcases getCoordinator_cases e c.system.servers server with
    ⟨coordinator, _, heq⟩ | ⟨_, message, heq⟩
  · rw [hget] at heq
    cases heq
    cases hchosen
    exact ⟨_, [], hdiscovery, rfl, rfl⟩
  · rw [hget] at heq
    cases heq
    obtain ⟨σ, new, hexecutes, hran⟩ := @executes_election setup
      (c.goTo server (.electing none)) _ _ _ _ _ (goTo_self ..) hsound hnew hchosen
    refine ⟨_, new, hdiscovery.trans hexecutes, hran, ?_⟩
    simp [goTo]

/-- The whole start of a server. -/
theorem executes_initializeServer (hidle : c.initializing server = .idle)
    (hsound : ∀ a, SoundServer stubs a (servers a))
    (hnew : ∀ run ∈ c.stopped, run < c.system.runs.length)
    (hservers : c.system.servers = servers)
    (h : servers.initializeServer e server = some (status, servers')) :
    ∃ c' new, Executes setup c c' servers' new ∧ new.filterMap Invocation.ran = [] ∧
      c'.initializing = Function.update c.initializing server (.returned status) := by
  subst hservers
  rcases hget : Servers.getCoordinator c.system.servers e server with ⟨getStatus, found⟩
  simp only [Servers.initializeServer, hget] at h
  split at h
  · cases h
  · rename_i electStatus chosen hchosen
    obtain ⟨c₁, new, hexecutes, hran, hphases⟩ :=
      @executes_choice setup _ _ _ _ _ _ _ _ hidle hsound hnew hget hchosen
    cases helectOk : electStatus.ok with
    | false =>
      rw [helectOk, if_neg Bool.false_ne_true] at h
      cases h
      rw [helectOk, if_neg Bool.false_ne_true] at hphases
      exact ⟨c₁, new, hexecutes, hran, hphases⟩
    | true =>
      rw [helectOk, if_pos rfl] at h hphases
      split at h
      · cases h
      · rename_i recoverStatus recovered hrecovery
        have hphase₁ : c₁.initializing server = .recovering := by
          rw [hphases, Function.update_self]
        rw [← hexecutes.servers] at hrecovery
        obtain ⟨c₂, hrecovers, hphases₂⟩ :=
          @executes_getRecovery setup _ _ _ _ _ hphase₁ hrecovery
        rw [hphases, Function.update_idem] at hphases₂
        have hboth := hexecutes.trans hrecovers
        rw [List.append_nil] at hboth
        split at h
        · rename_i hok
          cases h
          rw [if_pos hok] at hphases₂
          exact ⟨c₂, new, hboth, hran, hphases₂⟩
        · rename_i hfailed
          cases h
          rw [if_neg hfailed] at hphases₂
          exact ⟨c₂, new, hboth, hran, hphases₂⟩

end Start

/-! ## What a crash leaves -/

theorem restarted_handle (s : MultiPaxosServiceImpl) (context : ServerContext)
    (randomFail : Bool) (msg : Message) :
    restarted (s.handle context randomFail msg).2 = restarted s := by
  have hhandled := s.handle_handled randomFail context msg
  have hrate := s.failRate_handle context randomFail msg
  simp only [restarted, hhandled.address, hhandled.stubs, hrate]

theorem restarted_update {s : MultiPaxosServiceImpl}
    (h : restarted s = restarted (servers server)) (a : Addr) :
    restarted (Function.update servers server s a) = restarted (servers a) := by
  by_cases ha : a = server
  · subst ha
    rw [Function.update_self, h]
  · rw [Function.update_of_ne ha]

/-- No change touches what a server has left after a crash. -/
theorem Change.restarted_eq (h : Change c c') (a : Addr) :
    restarted (c'.system.servers a) = restarted (c.system.servers a) := by
  have hset : ∀ {server s}, restarted s = restarted (c.system.servers server) →
      restarted (Function.update c.system.servers server s a) =
        restarted (c.system.servers a) := fun hs => restarted_update hs a
  cases h with
  | paxos hstep hstart =>
    cases hstep with
    | refuse hrefusal => rfl
    | enter hrefusal => exact hset rfl
    | @call run inv receiver msg fate randomFail hrun hcall =>
      cases fate with
      | delivered => exact hset (restarted_handle ..)
      | lost => rfl
      | replyLost => rfl
    | advance hrun hadvance =>
      rw [System.noteReturn_servers]
      rfl
    | arrive context randomFail hindex => exact hset (restarted_handle ..)
  | goTo henters => rfl
  | follow hphase hname =>
    refine hset ?_
    simp only [restarted, PaxosStubsMap.stubs_setCoordinator]
  | setValue hphase hentry => exact hset rfl
  | addPaxosLog hphase hentry => exact hset rfl
  | crash server => exact hset rfl

theorem restarted_leads {own : Action → Prop} (h : (cluster setup).Leads own c c') (a : Addr) :
    restarted (c'.system.servers a) = restarted (c.system.servers a) := by
  refine h.invariant (I := fun c' => restarted (c'.system.servers a) =
    restarted (c.system.servers a)) (fun _ _ _ _ hstep hsame => ?_) rfl
  have hchanges := changes_of_step (step_cases hstep)
  clear hstep
  -- a step is one change or two
  induction hchanges with
  | refl => exact hsame
  | tail _ hlast ih => exact (hlast.restarted_eq a).trans ih

end Cluster

namespace Deployment

open Cluster (Executes restarted)

/-- The updates that were run for the answers, newest first. -/
def updates (answers : List Answered) : List (Addr × Request × StatusCode) :=
  answers.filterMap fun x => x.answer.ran x.request

/-- The servers of the cluster are `servers`, no invocation is under way, and
the updates that it has run are those of `answers`. -/
structure Quiescent (stubs : PaxosStubs) (servers : Servers) (answers : List Answered)
    (c : Cluster) : Prop where
  configured : ∀ a, restarted (servers a) = freshServer stubs a
  servers : c.system.servers = servers
  returned : ∀ inv ∈ c.system.runs, ∃ status, inv.phase = .returned status
  inFlight : c.system.inFlight = []
  stopped : ∀ run ∈ c.stopped, run < c.system.runs.length
  ran : c.system.runs.filterMap Invocation.ran = (updates answers).reverse

/-- The cluster is where the deployment is, between two of its steps. -/
structure Implements (stubs : PaxosStubs) (d : Deployment) (c : Cluster) : Prop
    extends Quiescent stubs d.servers d.answers c where
  up : ∀ a ∈ d.running, ∃ status, c.initializing a = .returned status ∧ status.ok = true
  down : ∀ a, a ∉ d.running → c.initializing a = .idle

variable {stubs : PaxosStubs} {setup : System → Prop} {d d' : Deployment} {c c' : Cluster}
  {servers servers' : Servers} {answers answers' : List Answered} {server : Addr}
  {new : List Invocation}

theorem implements_initial (stubs : PaxosStubs) :
    Implements stubs (initial stubs) { system := { servers := freshServer stubs } } where
  servers := rfl
  configured a := rfl
  returned inv hinv := by cases hinv
  inFlight := rfl
  stopped run hrun := by cases hrun
  ran := rfl
  up a ha := by cases ha
  down a _ := rfl

/-- After a piece of the schedule in which the updates of `new` were run. -/
theorem Quiescent.executes (h : Quiescent stubs servers answers c)
    (hexecutes : Executes setup c c' servers' new)
    (hran : (updates answers').reverse =
      (updates answers).reverse ++ new.filterMap Invocation.ran) :
    Quiescent stubs servers' answers' c' where
  servers := hexecutes.servers
  configured a := by
    rw [← h.configured a, ← hexecutes.servers, ← h.servers]
    exact Cluster.restarted_leads hexecutes.leads a
  returned inv hinv := by
    rw [hexecutes.runs] at hinv
    exact (List.mem_append.mp hinv).elim (h.returned inv) (hexecutes.returned inv)
  inFlight := hexecutes.inFlight.trans h.inFlight
  stopped run hrun := by
    rw [hexecutes.stopped] at hrun
    rw [hexecutes.runs, List.length_append]
    exact Nat.lt_add_right _ (h.stopped run hrun)
  ran := by rw [hexecutes.runs, List.filterMap_append, h.ran, hran]

/-- After a crash. -/
theorem Quiescent.crash (h : Quiescent stubs servers answers c) (server : Addr) :
    ∃ c', (cluster setup).Leads (fun _ => True) c c' ∧
      Quiescent stubs (Function.update servers server (freshServer stubs server)) answers c' ∧
      c'.initializing =
        Function.update (fun a => Cluster.interrupted server (c.initializing a)) server .idle := by
  have hleft : restarted (c.system.servers server) = freshServer stubs server := by
    rw [h.servers, h.configured]
  have hstep : (cluster setup).step c (.crash server) = some _ := rfl
  refine ⟨_, .of_step trivial hstep, ?_, rfl⟩
  constructor
  case servers => rw [hleft, h.servers]
  case configured =>
    intro a
    rw [← h.configured a]
    exact Cluster.restarted_update (by rw [h.configured]; rfl) a
  case returned => exact h.returned
  case inFlight => exact h.inFlight
  case stopped =>
    intro run hrun
    rcases List.mem_append.mp hrun with hown | hstopped
    · exact List.mem_range.mp (List.mem_filter.mp hown).1
    · exact h.stopped run hstopped
  case ran => exact h.ran

/-- A crash stops no start but that of its server: no other is under way. -/
theorem interrupted_eq {phase : Initializing}
    (h : phase = .idle ∨ ∃ status, phase = .returned status) :
    Cluster.interrupted server phase = phase := by
  rcases h with rfl | ⟨_, rfl⟩ <;> rfl

/-- After the start of a server, whether it stays up or not. -/
theorem Implements.started {reach : Addr → Bool} {randomFail : Message → Addr → Bool}
    {status : Status} (h : Implements stubs d c) (hsound : Sound stubs d)
    (hdown : server ∉ d.running)
    (hinit : d.servers.initializeServer (.within reach randomFail) server =
      some (status, servers)) :
    ∃ c', (cluster setup).Leads (fun _ => True) c c' ∧ Quiescent stubs servers d.answers c' ∧
      c'.initializing = Function.update c.initializing server (.returned status) := by
  obtain ⟨c', new, hexecutes, hran, hphases⟩ := @Cluster.executes_initializeServer setup c
    d.servers servers server stubs _ status (h.down server hdown) hsound.servers h.stopped
    h.servers hinit
  refine ⟨c', hexecutes.leads, h.toQuiescent.executes hexecutes ?_, hphases⟩
  rw [hran, List.append_nil]

/-- After a request. -/
theorem Implements.answered {reach : Addr → Bool} {randomFail : Message → Addr → Bool}
    {request : ClientRequest} {answer : Answer} {answered : Answered}
    (h : Implements stubs d c) (hsound : Sound stubs d)
    (hflow : d.servers.requestFlow reach randomFail server request = some (answer, servers))
    (hanswered : answered.answer = answer ∧ answered.request = request) :
    ∃ c', (cluster setup).Leads (fun _ => True) c c' ∧
      Implements stubs { d with servers := servers, answers := answered :: d.answers } c' := by
  obtain ⟨rfl, rfl⟩ := hanswered
  obtain ⟨σ, new, hexecutes, hran⟩ := @Cluster.executes_requestFlow setup c d.servers servers
    server reach randomFail _ _ stubs hsound.servers h.stopped h.servers hflow
  refine ⟨_, hexecutes.leads, h.toQuiescent.executes hexecutes ?_, h.up, h.down⟩
  rw [hran]
  cases hanswer : answered.answer.ran answered.request with
  | none => simp [updates, hanswer]
  | some ran => simp [updates, hanswer]

/-- The cluster can do whatever the deployment does in a step. -/
theorem implements_step {act : Action} (h : Implements stubs d c) (hsound : Sound stubs d)
    (hstep : step stubs d act = some d') :
    ∃ c', (cluster setup).Leads (fun _ => True) c c' ∧ Implements stubs d' c' := by
  have hquiet : ∀ a, c.initializing a = .idle ∨ ∃ status, c.initializing a = .returned status := by
    intro a
    by_cases ha : a ∈ d.running
    · obtain ⟨status, hphase, _⟩ := h.up a ha
      exact .inr ⟨status, hphase⟩
    · exact .inl (h.down a ha)
  cases step_cases hstep with
  | @started server reach randomFail status servers hdown hlisted hinit hok =>
    obtain ⟨c', hleads, hquiescent, hphases⟩ := h.started hsound hdown hinit
    refine ⟨c', hleads, hquiescent, ?_, ?_⟩
    · intro a ha
      rw [hphases]
      by_cases hserver : a = server
      · subst hserver
        exact ⟨status, Function.update_self .., hok⟩
      · rw [Function.update_of_ne hserver]
        exact h.up a ((List.mem_cons.mp ha).resolve_left hserver)
    · intro a ha
      rw [List.mem_cons, not_or] at ha
      rw [hphases, Function.update_of_ne ha.1, h.down a ha.2]
  | @ended server reach randomFail status servers hdown hlisted hinit =>
    -- the start as far as it went, and then the crash
    obtain ⟨c₁, hleads, hquiescent, hphases⟩ := h.started hsound hdown hinit
    obtain ⟨c', hcrash, hquiescent', hphases'⟩ := hquiescent.crash server
    have hsame : c'.initializing = c.initializing := by
      funext a
      rw [hphases', hphases]
      by_cases hserver : a = server
      · subst hserver
        rw [Function.update_self, h.down a hdown]
      · rw [Function.update_of_ne hserver, Function.update_of_ne hserver,
          interrupted_eq (hquiet a)]
    exact ⟨c', hleads.trans hcrash, hquiescent', hsame ▸ h.up, hsame ▸ h.down⟩
  | @answered server request reach randomFail answer servers hup hflow =>
    exact h.answered hsound hflow ⟨rfl, rfl⟩
  | @crashed server hup =>
    obtain ⟨c', hleads, hquiescent, hphases⟩ := h.toQuiescent.crash server
    refine ⟨c', hleads, hquiescent, ?_, ?_⟩
    · intro a ha
      obtain ⟨hmem, hserver⟩ := List.mem_filter.mp ha
      rw [hphases, Function.update_of_ne (by simpa using hserver), interrupted_eq (hquiet a)]
      exact h.up a hmem
    · intro a ha
      rw [hphases]
      by_cases hserver : a = server
      · subst hserver
        exact Function.update_self ..
      · rw [Function.update_of_ne hserver, interrupted_eq (hquiet a)]
        exact h.down a fun hmem => ha (List.mem_filter.mpr ⟨hmem, by simpa using hserver⟩)

/-- The deployment is a schedule of the cluster. -/
theorem simulates_cluster (stubs : PaxosStubs) :
    (deployment stubs).Simulates (fun _ _ => True) (cluster (System.SharesReplicas stubs))
      (Implements stubs) where
  initial d hinit := by
    cases hinit
    refine ⟨_, ?_, implements_initial stubs⟩
    exact ⟨⟨⟨fun _ => rfl, fun _ => rfl, rfl, rfl, rfl⟩, fun _ => rfl, fun _ => rfl, rfl⟩,
      fun _ => rfl⟩
  step d act d' c hreach _ hstep h := implements_step h (sound_of_reachable hreach) hstep

/-- Whatever requests, starts and crashes lead a deployment to, the calls that
the servers make and the entries that they copy lead a cluster to, with the
same servers up, the same state in each of them, and the updates run in the
order in which they were answered, each at the server that handled it and with
the code of its answer. -/
theorem implements_of_reachable (h : (deployment stubs).Reachable (fun _ _ => True) d) :
    ∃ c, (cluster (System.SharesReplicas stubs)).Reachable (fun _ _ => True) c ∧
      Implements stubs d c :=
  (simulates_cluster stubs).exists_reachable h

/-- `b` is restarted between an update and one in which every call fails. -/
def putRestartFail : List Action :=
  startServers ++
    [.request "c" (.put "k" "x") ["a", "c"] fun _ _ => false, .crash "b",
      .start "b" ["a"] fun _ _ => false,
      .request "b" (.delete "k") ["a", "c"] fun _ _ => true]

set_option maxRecDepth 10000 in
/-- The coordinator has run both, with the codes that the clients saw. -/
theorem implements_putRestartFail :
    ∃ d c, Implements (.ofReplicas ["a", "b", "c"]) d c ∧
      c.system.runs.filterMap Invocation.ran =
        [("a", .put "k" "x", .ok), ("a", .delete "k", .aborted)] := by
  have hrun : ∃ d ∈ (deployment (.ofReplicas ["a", "b", "c"])).execWhere (fun _ _ => True)
      (initial (.ofReplicas ["a", "b", "c"])) putRestartFail,
      (updates d.answers).reverse =
        [("a", .put "k" "x", .ok), ("a", .delete "k", .aborted)] := by
    decide +kernel
  obtain ⟨d, hreach, hran⟩ := ActionSystem.exists_reachable_of_execWhere rfl hrun
  obtain ⟨c, _, himplements⟩ := implements_of_reachable hreach
  exact ⟨d, c, himplements, himplements.ran.trans hran⟩

end Deployment

end PaxosKVStore
