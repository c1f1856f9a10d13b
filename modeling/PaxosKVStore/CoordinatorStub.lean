import PaxosKVStore.Decided

/-!
# The coordinator stub of a server that starts

`GetRecovery` calls `Recover` on the coordinator stub without a test for null.
After a discovery the coordinator is set.  After an election it is set only if
the `Inform` of the election came back to the server that asked for it, and
nothing looks at that: the election is OK as soon as a majority has accepted.

`InformsItself` asks for it where the election enters its last loop and where
it calls its own server.  `Awaiting` is what a server that starts can rely on
then, and `coordinatorStub_of_recovering` says that the stub is not null.
-/

namespace PaxosKVStore

/-- The coordinator of the server has a stub. -/
def MultiPaxosServiceImpl.Knows (s : MultiPaxosServiceImpl) : Prop :=
  s.paxosStubsMap.coordinator ∈ s.paxosStubsMap.stubs.addrs

instance (s : MultiPaxosServiceImpl) : Decidable s.Knows :=
  inferInstanceAs (Decidable (_ ∈ _))

/-- The election that a server waits for. -/
def Initializing.awaited : Initializing → Option Nat
  | .electing run => run
  | _ => none

instance (phase : Initializing) : Decidable (phase = .recovering) :=
  match phase with
  | .idle => isFalse fun h => by cases h
  | .discovering _ _ => isFalse fun h => by cases h
  | .electing _ => isFalse fun h => by cases h
  | .recovering => isTrue rfl
  | .copying _ _ => isFalse fun h => by cases h
  | .restoring _ _ => isFalse fun h => by cases h
  | .returned _ => isFalse fun h => by cases h

/-- The election has its own server still to inform, or the server knows a
coordinator. -/
def Invocation.Due (inv : Invocation) (knows : Prop) : Prop :=
  match inv.phase with
  | .inform todo => knows ∨ inv.server ∈ todo
  | .returned status => status.ok = true → knows
  | _ => True

namespace Cluster

/-- The election that a starting server waits for informs this server, unless
the server knows a coordinator already.  The server is among the live ones when
the last loop begins.  Its own `Inform` is delivered, finds no higher round in
its log, and names a replica on its list. -/
def InformsItself (c : Cluster) : Action → Prop
  | .paxos (.advance run) => ∀ inv ∈ c.system.runs[run]?,
      (c.initializing inv.server).awaited = some run → inv.phase = .propose [] →
        inv.numOfAcceptors / 2 < inv.numOfAccepted → ¬ (c.system.servers inv.server).Knows →
          inv.server ∈ inv.livePaxosStubs
  | .paxos (.call run fate _) => ∀ inv ∈ c.system.runs[run]?,
      (c.initializing inv.server).awaited = some run →
        inv.nextCall = some (inv.server, .inform inv.informReq) →
          ¬ (c.system.servers inv.server).Knows →
            fate = .delivered ∧
              ¬ (c.system.servers inv.server).kvDb.Supersedes inv.key inv.acceptance.round ∧
              inv.acceptance.value ∈ (c.system.servers inv.server).paxosStubsMap.stubs.addrs
  | _ => True

instance (c : Cluster) : ∀ act, Decidable (c.InformsItself act)
  | .paxos (.advance run) =>
      inferInstanceAs (Decidable (∀ inv ∈ c.system.runs[run]?,
        (c.initializing inv.server).awaited = some run → inv.phase = .propose [] →
          inv.numOfAcceptors / 2 < inv.numOfAccepted →
            ¬ (c.system.servers inv.server).Knows → inv.server ∈ inv.livePaxosStubs))
  | .paxos (.call run fate _) =>
      inferInstanceAs (Decidable (∀ inv ∈ c.system.runs[run]?,
        (c.initializing inv.server).awaited = some run →
          inv.nextCall = some (inv.server, .inform inv.informReq) →
            ¬ (c.system.servers inv.server).Knows →
              fate = .delivered ∧
                ¬ (c.system.servers inv.server).kvDb.Supersedes inv.key inv.acceptance.round ∧
                inv.acceptance.value ∈
                  (c.system.servers inv.server).paxosStubsMap.stubs.addrs))
  | .paxos (.start ..) => isTrue trivial
  | .paxos (.arrive ..) => isTrue trivial
  | .electNewCoordinator .. => isTrue trivial
  | .initializeServer .. => isTrue trivial
  | .crash _ => isTrue trivial

/-- What the server `a` can rely on in `Initialize`. -/
def Awaiting (σ : System) (a : Addr) : Initializing → Prop
  | .discovering todo found =>
      (∀ addr ∈ todo, addr ∈ (σ.servers a).paxosStubsMap.stubs.addrs) ∧
        ∀ addr ∈ found.livePaxosStubs, addr ∈ (σ.servers a).paxosStubsMap.stubs.addrs
  | .electing (some run) => ∃ inv, σ.runs[run]? = some inv ∧ inv.server = a ∧
      inv.key = "coordinator" ∧ inv.Due (σ.servers a).Knows
  | .recovering => (σ.servers a).Knows
  | _ => True

end Cluster

/-! ## Coordinators that stay known -/

section Knows

variable {s s' : MultiPaxosServiceImpl} {msg : Message} {reply : Reply}

/-- A server that knows a coordinator may get another one and does not lose it. -/
theorem Handled.knows (h : Handled s s' msg reply) (hknows : s.Knows) : s'.Knows := by
  unfold MultiPaxosServiceImpl.Knows
  rw [h.coordinator, h.stubs]
  split
  · split
    · rename_i hset
      exact hset.2
    · exact hknows
  · exact hknows

/-- A server knows the coordinator that it was informed of. -/
theorem Handled.knows_of_executed (h : Handled s s' msg reply) {key : String} {op : Operation}
    (hexecuted : msg.executed reply = some (key, op)) (htype : op.type = .setCoordinator)
    (hlisted : op.value ∈ s.paxosStubsMap.stubs.addrs) : s'.Knows := by
  unfold MultiPaxosServiceImpl.Knows
  rw [h.coordinator, h.stubs, hexecuted]
  show (if op.type = .setCoordinator ∧ op.value ∈ s.paxosStubsMap.stubs.addrs then op.value
    else s.paxosStubsMap.coordinator) ∈ s.paxosStubsMap.stubs.addrs
  rw [if_pos ⟨htype, hlisted⟩]
  exact hlisted

theorem Unchanged.knows (h : Unchanged s s') (hknows : s.Knows) : s'.Knows := by
  unfold MultiPaxosServiceImpl.Knows
  rw [h.coordinator, h.stubs]
  exact hknows

/-- No step of the Paxos part makes a server forget its coordinator. -/
theorem System.knows_step {σ σ' : System} {act : Action} (h : System.StepCases σ act σ')
    {a : Addr} (hknows : (σ.servers a).Knows) : (σ'.servers a).Knows := by
  cases System.step_effect h with
  | quiet new hhistory hnew hservers => exact (hservers a).knows hknows
  | handled run receiver msg context randomFail new hhistory hnew hhandled hother =>
    by_cases ha : a = receiver
    · subst ha
      exact hhandled.knows hknows
    · rw [hother a ha]
      exact hknows

end Knows

/-! ## The election of the server -/

theorem Invocation.Due.mono {inv : Invocation} {knows knows' : Prop} (h : inv.Due knows)
    (himp : knows → knows') : inv.Due knows' := by
  unfold Due at h ⊢
  split at h
  · exact h.imp_left himp
  · exact fun hok => himp (h hok)
  · trivial

namespace Cluster

variable {c c' : Cluster}

/-- The own `Inform` of the election leaves the server with a coordinator. -/
theorem Origins.knows_of_inform (h : Origins c) {run : Nat} {inv : Invocation}
    (hrun : c.system.runs[run]? = some inv) (hkey : inv.key = "coordinator")
    (hcall : inv.Calls inv.server (.inform inv.informReq)) {randomFail : Bool}
    (hsuper : ¬ (c.system.servers inv.server).kvDb.Supersedes inv.key inv.acceptance.round)
    (hlisted : inv.acceptance.value ∈
      (c.system.servers inv.server).paxosStubsMap.stubs.addrs) :
    ((c.system.call run inv inv.server (.inform inv.informReq) .delivered
      randomFail).servers inv.server).Knows := by
  have hhandled := c.system.call_handled run inv inv.server (.inform inv.informReq) randomFail
  have hexecuted : (Message.inform inv.informReq).executed
      (c.system.answer inv.server (.inform inv.informReq) {} randomFail) =
      some (inv.key, inv.acceptance.operation) := by
    refine if_pos ((MultiPaxosServiceImpl.inform_ok_iff _ _).mpr ?_)
    exact hsuper
  -- on the reserved key every operation sets a coordinator
  have hwf := h.provenance.wf run inv hrun
  obtain ⟨hcommitted, _, hop⟩ := hcall.sends.executed hwf hexecuted
  have hfrom := System.proposalFrom_proposal hrun (h.provenance.adopted run inv hrun)
    (hwf.proposed_of_committed hcommitted)
  have htype := (h.askedFor hfrom).type_iff.mpr hkey
  rw [← hop] at htype
  exact hhandled.knows_of_executed hexecuted htype hlisted

/-- A call of the election that the server waits for. -/
theorem due_call (horigins : Origins c) {run : Nat} {inv : Invocation} {receiver : Addr}
    {msg : Message} {fate : Fate} {randomFail : Bool}
    (hcond : c.InformsItself (.paxos (.call run fate randomFail)))
    (hrun : c.system.runs[run]? = some inv) (hkey : inv.key = "coordinator")
    (hawaited : (c.initializing inv.server).awaited = some run)
    (hcall : inv.Calls receiver msg) (hdue : inv.Due (c.system.servers inv.server).Knows) :
    (inv.receive receiver (c.system.callAnswer receiver msg randomFail fate)).Due
      ((c.system.call run inv receiver msg fate randomFail).servers inv.server).Knows := by
  have hserver := (c.system.call_evolves hcall randomFail fate).server
  have hknows : (c.system.servers inv.server).Knows →
      ((c.system.call run inv receiver msg fate randomFail).servers inv.server).Knows :=
    System.knows_step (.call fate randomFail hrun hcall)
  have hphase : (inv.receive receiver
      (c.system.callAnswer receiver msg randomFail fate)).phase = inv.phase.tail := rfl
  cases hcall with
  | ping hping =>
    rw [hping] at hphase
    simp only [Invocation.Due, hphase, Phase.tail]
  | prepare hprepare =>
    rw [hprepare] at hphase
    simp only [Invocation.Due, hphase, Phase.tail]
  | propose hpropose =>
    rw [hpropose] at hphase
    simp only [Invocation.Due, hphase, Phase.tail]
  | @inform todo hinform =>
    rw [hinform] at hphase
    simp only [Invocation.Due, hinform] at hdue
    simp only [Invocation.Due, hphase, Phase.tail, List.tail_cons]
    rw [hserver]
    by_cases hbefore : (c.system.servers inv.server).Knows
    · exact Or.inl (hknows hbefore)
    · rcases List.mem_cons.mp (hdue.resolve_left hbefore) with heq | htodo
      · subst heq
        have hcall : inv.Calls inv.server (.inform inv.informReq) := .inform hinform
        obtain ⟨rfl, hsuper, hlisted⟩ := hcond inv hrun hawaited
          (Invocation.nextCall_of_calls hcall) hbefore
        exact Or.inl (horigins.knows_of_inform hrun hkey hcall hsuper hlisted)
      · exact Or.inr htodo

/-- The election goes on after a loop. -/
theorem due_advance {run : Nat} {inv inv' : Invocation}
    (hcond : c.InformsItself (.paxos (.advance run))) (hrun : c.system.runs[run]? = some inv)
    (hawaited : (c.initializing inv.server).awaited = some run) (hadvance : inv.Advances inv')
    (hdue : inv.Due (c.system.servers inv.server).Knows) :
    inv'.Due (c.system.servers inv.server).Knows := by
  cases hadvance with
  | startInform hphase hcount =>
    by_cases hknows : (c.system.servers inv.server).Knows
    · exact Or.inl hknows
    · exact Or.inr (hcond inv hrun hawaited hphase hcount hknows)
  | done hphase =>
    simp only [Invocation.Due, hphase, List.not_mem_nil, or_false] at hdue
    exact fun _ => hdue
  | noneLive message hphase hlive => exact fun hok => by cases hok
  | failedQuorum message hphase hcount => exact fun hok => by cases hok
  | failedConsensus message hphase hcount => exact fun hok => by cases hok
  | startPrepare hphase hlive => trivial
  | startPropose hphase hcount => trivial

/-! ## Whole runs -/

/-- The discovery counts a replica as live when it asks it. -/
theorem mem_live_of_heard {found : Discovered} {addr x : Addr}
    {answer : Option (Status × GetCoordinatorResponse)}
    (h : x ∈ (found.heard addr answer).livePaxosStubs) :
    x ∈ found.livePaxosStubs ∨ x = addr := by
  unfold Discovered.heard at h
  split at h
  · split at h
    · exact (List.mem_append.mp h).imp_right List.mem_singleton.mp
    · exact Or.inl h
  · exact Or.inl h

/-- What a server relies on stays if the invocations are the same. -/
theorem Awaiting.of_runs_eq {σ σ' : System} {a : Addr} {phase : Initializing}
    (h : Awaiting σ a phase) (hruns : σ'.runs = σ.runs)
    (hstubs : (σ'.servers a).paxosStubsMap.stubs = (σ.servers a).paxosStubsMap.stubs)
    (hknows : (σ.servers a).Knows → (σ'.servers a).Knows) : Awaiting σ' a phase := by
  unfold Awaiting at h ⊢
  split at h
  · rw [hstubs]
    exact h
  · obtain ⟨inv, hrun, hserver, hkey, hdue⟩ := h
    exact ⟨inv, hruns ▸ hrun, hserver, hkey, hdue.mono hknows⟩
  · exact hknows h
  · trivial

/-- A step of the Paxos part. -/
theorem awaiting_paxos (horigins : Origins c) {act : PaxosKVStore.Action} {σ : System}
    (hcond : c.InformsItself (.paxos act)) (hstep : System.StepCases c.system act σ) {a : Addr}
    (h : Awaiting c.system a (c.initializing a)) : Awaiting σ a (c.initializing a) := by
  have hstubs := (System.step_effect hstep).stubs a
  have hknows : (c.system.servers a).Knows → (σ.servers a).Knows := System.knows_step hstep
  generalize hinit : c.initializing a = phase at h ⊢
  unfold Awaiting at h ⊢
  split at h
  · rw [hstubs]
    exact h
  · rename_i run
    obtain ⟨inv, hrun, rfl, hkey, hdue⟩ := h
    have hawaited : (c.initializing inv.server).awaited = some run := by rw [hinit]; rfl
    have hsame : σ.runs[run]? = some inv → ∃ inv', σ.runs[run]? = some inv' ∧
        inv'.server = inv.server ∧ inv'.key = "coordinator" ∧
          inv'.Due (σ.servers inv.server).Knows :=
      fun hrun' => ⟨inv, hrun', rfl, hkey, hdue.mono hknows⟩
    cases hstep with
    | refuse hrefusal => exact hsame hrun
    | enter hrefusal => exact hsame (System.getElem?_snoc_of_some hrun)
    | @call run' inv' receiver msg fate randomFail hrun' hcall =>
      rw [System.call_runs] at hsame ⊢
      by_cases heq : run = run'
      · subst heq
        cases hrun.symm.trans hrun'
        have hevolves := c.system.call_evolves hcall randomFail fate
        exact ⟨_, System.getElem?_set_self' hrun, hevolves.server, hevolves.key.trans hkey,
          due_call horigins hcond hrun hkey hawaited hcall hdue⟩
      · exact hsame ((List.getElem?_set_ne (Ne.symm heq)).trans hrun)
    | @advance run' inv' inv'' hrun' hadvance =>
      rw [System.noteReturn_runs] at hsame ⊢
      by_cases heq : run = run'
      · subst heq
        cases hrun.symm.trans hrun'
        have hevolves : inv.Evolves inv'' :=
          .advances (horigins.provenance.wf run inv hrun) hadvance
        refine ⟨inv'', System.getElem?_set_self' hrun, hevolves.server,
          hevolves.key.trans hkey, ?_⟩
        exact (due_advance hcond hrun hawaited hadvance hdue).mono hknows
      · exact hsame ((List.getElem?_set_ne (Ne.symm heq)).trans hrun)
    | arrive context randomFail hindex => exact hsame hrun
  · exact hknows h
  · trivial

/-- A server that goes on leaves the others where they are. -/
theorem awaiting_goTo (h : ∀ a, Awaiting c.system a (c.initializing a)) {server : Addr}
    {phase : Initializing} (hphase : Awaiting c.system server phase) (a : Addr) :
    Awaiting (c.goTo server phase).system a ((c.goTo server phase).initializing a) := by
  by_cases ha : a = server
  · subst ha
    rw [goTo_self]
    exact hphase
  · rw [goTo_of_ne c server ha]
    exact h a

/-- A server whose own state changes keeps what it relies on. -/
theorem awaiting_setServer (h : ∀ a, Awaiting c.system a (c.initializing a)) {server : Addr}
    {service : MultiPaxosServiceImpl}
    (hstubs : service.paxosStubsMap.stubs = (c.system.servers server).paxosStubsMap.stubs)
    (hknows : (c.system.servers server).Knows → service.Knows) (a : Addr) :
    Awaiting (c.setServer server service).system a ((c.setServer server service).initializing a)
    := by
  by_cases ha : a = server
  · subst ha
    refine (h a).of_runs_eq rfl ?_ ?_
    · rw [setServer_self]
      exact hstubs
    · rw [setServer_self]
      exact hknows
  · refine (h a).of_runs_eq rfl ?_ ?_ <;> rw [setServer_of_ne c server service ha]
    exact id

theorem awaiting_step (horigins : Origins c) (h : ∀ a, Awaiting c.system a (c.initializing a))
    {act : Action} (hcond : c.InformsItself act) (hstep : StepCases c act c') (a : Addr) :
    Awaiting c'.system a (c'.initializing a) := by
  cases hstep with
  | paxos hpermits hpaxos =>
    exact awaiting_paxos horigins hcond (System.step_cases hpaxos) (h a)
  | @electNewCoordinator server context hlisted =>
    exact awaiting_paxos horigins (by trivial)
      (start_cases c.system (c.system.servers server).myPaxosAddress
        (ownElection (c.system.servers server)) context) (h a)
  | start hphase =>
    refine awaiting_goTo h ?_ a
    exact ⟨fun addr haddr => haddr, fun addr haddr => by cases haddr⟩
  | @ask server addr todo found fate hphase =>
    have hserver := h server
    rw [hphase] at hserver
    refine awaiting_goTo h ?_ a
    refine ⟨fun x hx => hserver.1 x (List.mem_cons_of_mem _ hx), fun x hx => ?_⟩
    rcases mem_live_of_heard hx with hx | rfl
    · exact hserver.2 x hx
    · exact hserver.1 x List.mem_cons_self
  | @discovered server coordinator found hphase hname hlive =>
    have hserver := h server
    rw [hphase] at hserver
    have hlisted := hserver.2 coordinator hlive
    have hset : ({ c.system.servers server with
        paxosStubsMap :=
          ((c.system.servers server).paxosStubsMap.setCoordinator coordinator).2 } :
        MultiPaxosServiceImpl).Knows := by
      show ((c.system.servers server).paxosStubsMap.setCoordinator coordinator).2.coordinator ∈
        ((c.system.servers server).paxosStubsMap.setCoordinator coordinator).2.stubs.addrs
      rw [PaxosStubsMap.coordinator_setCoordinator, PaxosStubsMap.stubs_setCoordinator,
        if_pos hlisted]
      exact hlisted
    refine awaiting_goTo (awaiting_setServer h ?_ fun _ => hset) ?_ a
    · exact PaxosStubsMap.stubs_setCoordinator _ _
    · show ((c.setServer server _).system.servers server).Knows
      rw [setServer_self]
      exact hset
  | undiscovered hphase => exact awaiting_goTo h (by trivial) a
  | @elect server hphase hlisted =>
    have hstart := fun a => awaiting_paxos horigins (by trivial)
      (start_cases c.system (c.system.servers server).myPaxosAddress
        (ownElection (c.system.servers server)) {}) (h a)
    let c' : Cluster :=
      { c with
        system := c.system.start (c.system.servers server).myPaxosAddress
          (ownElection (c.system.servers server)) {} }
    refine awaiting_goTo (c := c') hstart ?_ a
    exact ⟨_, List.getElem?_concat_length .., horigins.address server, rfl, trivial⟩
  | @elected server run inv status hphase hrun hreturned hok =>
    have hserver := h server
    rw [hphase] at hserver
    obtain ⟨inv', hrun', _, _, hdue⟩ := hserver
    cases hrun.symm.trans hrun'
    simp only [Invocation.Due, hreturned] at hdue
    refine awaiting_goTo h ?_ a
    exact hdue hok
  | copyDataMap hphase hstub => exact awaiting_goTo h (by trivial) a
  | copyPaxosLogs hphase hresponse => exact awaiting_goTo h (by trivial) a
  | setValue hphase hindex =>
    refine awaiting_goTo (awaiting_setServer h ?_ ?_) ?_ a
    · rfl
    · exact id
    · trivial
  | addPaxosLog hphase hindex =>
    refine awaiting_goTo (awaiting_setServer h ?_ ?_) ?_ a
    · rfl
    · exact id
    · trivial
  | finish hphase => exact awaiting_goTo h (by trivial) a
  | giveUp status hno => exact awaiting_goTo h (by trivial) a
  | crash server =>
    by_cases ha : a = server
    · subst ha
      simp only [Function.update_self]
      trivial
    · simp only [Function.update_of_ne ha]
      have hinterrupted : Awaiting c.system a (interrupted server (c.initializing a)) := by
        rcases interrupted_cases server (c.initializing a) with heq | heq
        · rw [heq]
          exact h a
        · rw [heq]
          trivial
      refine hinterrupted.of_runs_eq rfl ?_ ?_ <;> simp only [Function.update_of_ne ha, imp_self]

/-- A server that starts never calls `Recover` through a null pointer, if the
election that it waits for informs it. -/
theorem coordinatorStub_of_recovering {setup : System → Prop} {c : Cluster}
    (h : (cluster setup).Reachable InformsItself c) {a : Addr}
    (hphase : c.initializing a = .recovering) :
    (c.system.servers a).paxosStubsMap.getCoordinatorStub ≠ none := by
  have hall : ∀ a, Awaiting c.system a (c.initializing a) := by
    refine h.invariant (I := fun c => ∀ a, Awaiting c.system a (c.initializing a)) ?_ ?_
    · intro c hinit a
      rw [hinit.1.initializing a]
      trivial
    · intro c act c' hreach hcond hstep hall
      exact awaiting_step (origins_of_reachable hreach) hall hcond (step_cases hstep)
  have hknows := hall a
  rw [hphase] at hknows
  intro hnone
  rw [PaxosStubsMap.getCoordinatorStub] at hnone
  split at hnone
  · cases hnone
  · rename_i hunlisted
    exact hunlisted hknows

/-! ## A run on each side of the condition -/

/-- The only replica starts and elects itself. -/
def electsItself : List Action :=
  [.initializeServer "a" .start, .initializeServer "a" (.ask .delivered),
    .initializeServer "a" .discovered, .initializeServer "a" .elect] ++
  (PaxosKVStore.Action.loop 0 1 ++ PaxosKVStore.Action.loop 0 1 ++
    PaxosKVStore.Action.loop 0 1).map .paxos

set_option maxRecDepth 20000 in
/-- Its `Inform` is delivered. -/
theorem coordinatorStub_of_recovering_informed : ∃ c : Cluster,
    c.initializing "a" = .recovering ∧
      (c.system.servers "a").paxosStubsMap.getCoordinatorStub ≠ none := by
  have hrun : ∃ c ∈ (cluster (System.SharesReplicas (.ofReplicas ["a"]))).execWhere
      InformsItself (fresh ["a"])
      (electsItself ++ (PaxosKVStore.Action.loop 0 1).map .paxos ++
        [.initializeServer "a" .elected]),
      c.initializing "a" = .recovering := by
    decide +kernel
  obtain ⟨c, hreach, hphase⟩ := exists_reachable_fresh hrun
  exact ⟨c, hphase, coordinatorStub_of_recovering hreach hphase⟩

set_option maxRecDepth 20000 in
/-- Its `Inform` is lost.  The election is OK all the same, and the next call
goes through the null pointer. -/
theorem not_coordinatorStub_of_recovering_lostInform : ∃ c : Cluster,
    (cluster (System.SharesReplicas (.ofReplicas ["a"]))).Reachable (fun _ _ => True) c ∧
      (c.system.servers "a").myPaxosAddress ∈
        (c.system.servers "a").paxosStubsMap.stubs.addrs ∧
      c.initializing "a" = .recovering ∧
      (c.system.servers "a").paxosStubsMap.getCoordinatorStub = none := by
  have hrun : ∃ c ∈ (cluster (System.SharesReplicas (.ofReplicas ["a"]))).execWhere
      (fun _ _ => True) (fresh ["a"])
      (electsItself ++ [.paxos (.call 0 .lost false), .paxos (.advance 0),
        .initializeServer "a" .elected]),
      (c.system.servers "a").myPaxosAddress ∈
        (c.system.servers "a").paxosStubsMap.stubs.addrs ∧
      c.initializing "a" = .recovering ∧
      (c.system.servers "a").paxosStubsMap.getCoordinatorStub = none := by
    decide +kernel
  exact exists_reachable_fresh hrun

end Cluster

end PaxosKVStore
