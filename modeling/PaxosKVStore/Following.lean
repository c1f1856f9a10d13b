import PaxosKVStore.Exclusive

/-!
# What the replicas that see every call hold

In the setting of `Exclusive`, a replica of `A` holds the acknowledged entry
of the key, and between its `Inform` and the return of the invocation the
outcome of the running request.  `FollowsAt` states this for one replica and
`follows_step` is its step lemma: only an `Inform` on the key changes the
entry, only a return on the key changes the acknowledged map, and the other
steps change neither.
-/

namespace PaxosKVStore

namespace System

/-! ## Elections stay on the reserved key -/

/-- A step starts elections on the reserved key only. -/
def ElectsOnReserved (_ : System) : Action → Prop
  | .start _ (.electCoordinator key _) _ => key = "coordinator"
  | _ => True

/-- Only requests on the reserved key ask for a coordinator. -/
def ElectionsReserved (σ : System) : Prop :=
  ∀ (i : Nat) (inv : Invocation), σ.runs[i]? = some inv →
    inv.request.setProposeValue.type = .setCoordinator → inv.key = "coordinator"

theorem electionsReserved_step {σ σ' : System} {act : Action} (hwf : WfRuns σ)
    (h : ElectionsReserved σ) (hcond : ElectsOnReserved σ act) (hstep : StepCases σ act σ') :
    ElectionsReserved σ' := by
  intro i inv hi htype
  rcases step_runs_back hwf hstep hi with
    ⟨inv0, hi0, hev⟩ | ⟨server, request, context, rfl, _, _, rfl⟩
  · rw [hev.request] at htype
    rw [hev.key]
    exact h i inv0 hi0 htype
  · cases request with
    | put key value => cases htype
    | delete key => cases htype
    | electCoordinator key coordinator => exact hcond

theorem electionsReserved_of_reachable {setup : System → Prop} {C : System → Action → Prop}
    {σ : System} (hC : ∀ σ act, C σ act → ElectsOnReserved σ act)
    (h : (paxos setup).Reachable C σ) : ElectionsReserved σ := by
  refine ActionSystem.Reachable.invariant ?_ ?_ h
  · intro σ hinit i inv hi
    simp [hinit.1.runs] at hi
  · intro σ act σ' hreach hcond hstep helections
    exact electionsReserved_step (provenance_of_reachable hreach).wf helections (hC _ _ hcond)
      (step_cases hstep)

variable {A : Addr → Prop} {key : String} {σ σ' : System} {act : Action}

/-- Only on the reserved key is a coordinator set. -/
theorem executed_reserved (hprov : Provenance σ) (helections : ElectionsReserved σ) {i : Nat}
    {inv : Invocation} (hrun : σ.runs[i]? = some inv) {msg : Message} {reply : Reply}
    (hsends : inv.Sends msg) {key : String} {op : Operation}
    (hexecuted : msg.executed reply = some (key, op)) (htype : op.type = .setCoordinator) :
    key = "coordinator" := by
  have hwf := hprov.wf i inv hrun
  obtain ⟨hcommitted, rfl, rfl⟩ := hsends.executed hwf hexecuted
  obtain ⟨j, inv', hj, hkey, _, _, _, hop⟩ := proposalFrom_proposal hrun
    (hprov.adopted i inv hrun) (hwf.proposed_of_committed hcommitted)
  rw [← hkey]
  exact helections j inv' hj (hop ▸ htype)

/-- A handled call of an invocation on another key leaves the entry. -/
theorem image_of_other_key (hprov : Provenance σ) (helections : ElectionsReserved σ) {i : Nat}
    {inv : Invocation} (hrun : σ.runs[i]? = some inv) {s s' : MultiPaxosServiceImpl}
    {msg : Message} {reply : Reply} (hsends : inv.Sends msg)
    (hhandled : Handled s s' msg reply) (hne : inv.key ≠ key) : s'.image key = s.image key := by
  cases hexecuted : msg.executed reply with
  | none => rw [hhandled.image_eq hexecuted]
  | some executed =>
    obtain ⟨key', op⟩ := executed
    refine hhandled.image_of_ne hexecuted
      (executed_reserved hprov helections hrun hsends hexecuted) ?_
    rw [(hsends.executed (hprov.wf i inv hrun) hexecuted).2.1]
    exact hne

/-! ## The entry of one replica -/

/-- The replica holds the acknowledged entry, or the outcome of the request
that has informed it. -/
structure FollowsAt (key : String) (a : Addr) (σ : System) : Prop where
  ahead : ∀ (i : Nat) (inv : Invocation), σ.runs[i]? = some inv → inv.key = key →
    inv.HasInformed a → (σ.servers a).image key = inv.request.outcome
  level : (∀ (i : Nat) (inv : Invocation), σ.runs[i]? = some inv → inv.key = key →
    ¬ inv.HasInformed a) → (σ.servers a).image key = acknowledged σ.history key

/-- A step that changes neither the entry nor the acknowledged map, and moves
no invocation on the key past the `Inform` of the replica. -/
theorem FollowsAt.congr {a : Addr} (h : FollowsAt key a σ)
    (himage : (σ'.servers a).image key = (σ.servers a).image key)
    (hack : acknowledged σ'.history key = acknowledged σ.history key)
    (hforth : ∀ (i : Nat) (inv : Invocation), σ.runs[i]? = some inv → inv.key = key →
      inv.HasInformed a → ∃ inv', σ'.runs[i]? = some inv' ∧ inv'.key = key ∧ inv'.HasInformed a)
    (hback : ∀ (i : Nat) (inv' : Invocation), σ'.runs[i]? = some inv' → inv'.key = key →
      inv'.HasInformed a → ∃ inv, σ.runs[i]? = some inv ∧ inv.key = key ∧
        inv.HasInformed a ∧ inv'.request = inv.request) : FollowsAt key a σ' where
  ahead i inv' hi hkey hinformed := by
    obtain ⟨inv, hi0, hkey0, hinformed0, hrequest⟩ := hback i inv' hi hkey hinformed
    rw [himage, hrequest]
    exact h.ahead i inv hi0 hkey0 hinformed0
  level hnone := by
    rw [himage, hack]
    refine h.level fun i inv hi hkey hinformed => ?_
    obtain ⟨inv', hi', hkey', hinformed'⟩ := hforth i inv hi hkey hinformed
    exact hnone i inv' hi' hkey' hinformed'

/-- The same for a step that moves one invocation. -/
theorem FollowsAt.congr_set {a : Addr} (h : FollowsAt key a σ) {run : Nat}
    {inv0 inv1 : Invocation} (hrun : σ.runs[run]? = some inv0)
    (hruns : σ'.runs = σ.runs.set run inv1) (hev : inv0.Evolves inv1)
    (himage : (σ'.servers a).image key = (σ.servers a).image key)
    (hack : acknowledged σ'.history key = acknowledged σ.history key)
    (hinformed : inv0.key = key → (inv1.HasInformed a ↔ inv0.HasInformed a)) :
    FollowsAt key a σ' := by
  refine h.congr himage hack ?_ ?_
  · intro i inv hi hkey hinf
    by_cases hir : i = run
    · subst hir
      rw [hrun] at hi
      cases hi
      exact ⟨inv1, hruns ▸ getElem?_set_self' hrun, hev.key.trans hkey, (hinformed hkey).mpr hinf⟩
    · exact ⟨inv, by rw [hruns, List.getElem?_set_ne (Ne.symm hir), hi], hkey, hinf⟩
  · intro i inv' hi hkey hinf
    rw [hruns] at hi
    rcases getElem?_set_cases hrun hi with ⟨rfl, rfl⟩ | ⟨_, hi⟩
    · have hkey0 : inv0.key = key := hev.key ▸ hkey
      exact ⟨inv0, hrun, hkey0, (hinformed hkey0).mp hinf, hev.request⟩
    · exact ⟨inv', hi, hkey, hinf, rfl⟩

/-- The `Inform` of the running invocation is executed. -/
theorem image_of_inform (hexclusive : Exclusive A key σ) (hprov : Provenance σ) {run : Nat}
    {inv : Invocation} {a : Addr} {todo : List Addr} {status : Status}
    {s' : MultiPaxosServiceImpl} (hrun : σ.runs[run]? = some inv) (hkey : inv.key = key)
    (ha : A a) (hphase : inv.phase = .inform (a :: todo))
    (hiff : status.ok = true ↔ ¬ (σ.db a).Supersedes inv.key inv.round)
    (hhandled : Handled (σ.servers a) s' (.inform inv.informReq) (.inform status)) :
    s'.image key = inv.request.outcome := by
  have hactive : inv.Active := by simp [Invocation.Active, hphase]
  have hcommitted : inv.Committed := by simp [Invocation.Committed, hphase]
  have hok : status.ok = true := by
    rw [hiff, hkey]
    exact hexclusive.not_supersedes hprov hrun hkey hactive a
  have hop : inv.informReq.acceptance.operation = inv.request.setProposeValue := by
    rw [Invocation.informReq, ((hprov.wf run inv hrun).committed hcommitted).2.2,
      ← hexclusive.proposal hprov hrun hkey]
    rfl
  have hexecuted : (Message.inform inv.informReq).executed (.inform status) =
      some (inv.request.key, inv.request.setProposeValue) := by
    rw [Message.executed, Reply.status, if_pos hok, hop]
    rfl
  have himage := hhandled.image_request hexecuted
    (hexclusive.sound run inv hrun hkey a ha)
  rw [← hkey]
  exact himage

/-- The head of an `Inform` loop is not visited again. -/
theorem notMem_tail_of_inform (hprov : Provenance σ) {run : Nat} {inv : Invocation} {a : Addr}
    {todo : List Addr} (hrun : σ.runs[run]? = some inv)
    (hphase : inv.phase = .inform (a :: todo)) : a ∉ todo := by
  have hwf := hprov.wf run inv hrun
  have hprogress := hwf.progress
  simp only [Invocation.Progress, hphase] at hprogress
  obtain ⟨_, _, seen, hseen⟩ := hprogress
  have hnodup := hwf.nodup.sublist hwf.live
  rw [hseen, List.nodup_append] at hnodup
  exact (List.nodup_cons.mp hnodup.2.1).1

theorem follows_step_call (hexclusive : Exclusive A key σ) (hprov : Provenance σ)
    (helections : ElectionsReserved σ) {a : Addr} (ha : A a) (h : FollowsAt key a σ)
    {run : Nat} {inv0 : Invocation} {receiver : Addr} {msg : Message} {fate : Fate}
    {randomFail : Bool} (hrespects : Respects A key σ (.call run fate randomFail))
    (hrun : σ.runs[run]? = some inv0) (hcall : inv0.Calls receiver msg) :
    FollowsAt key a (σ.call run inv0 receiver msg fate randomFail) := by
  have hack : acknowledged (σ.call run inv0 receiver msg fate randomFail).history key =
      acknowledged σ.history key := by
    cases fate <;> rfl
  by_cases hkey0 : inv0.key = key
  · obtain ⟨inv1, hruns, hev, hcases⟩ := call_of_respects hprov hrespects hrun hcall hkey0
    have hself : (σ.call run inv0 receiver msg fate randomFail).runs[run]? = some inv1 := by
      rw [hruns]
      exact getElem?_set_self' hrun
    by_cases hreceiver : a = receiver
    · subst hreceiver
      rcases hcases with ⟨reply, rfl, hdelivers, hhandled, _⟩ | ⟨hno, _⟩
      · cases hdelivers with
        | @inform todo status hphase hiff =>
          have himage := image_of_inform hexclusive hprov hrun hkey0 ha hphase hiff hhandled
          refine ⟨fun i inv hi hkey hinf => ?_, fun hnone => ?_⟩
          · rw [hruns] at hi
            rcases getElem?_set_cases hrun hi with ⟨rfl, rfl⟩ | ⟨hne, hi⟩
            · exact himage
            · exact absurd (hexclusive.eq_of_active hi hrun hkey hkey0 hinf.active hcall.active)
                hne
          · exact absurd (notMem_tail_of_inform hprov hrun hphase) (hnone run _ hself hkey0)
        | _ =>
          -- no other call executes an operation
          exact h.congr_set hrun hruns hev (by rw [hhandled.image_eq rfl]) hack
            (by simp_all [Invocation.HasInformed])
      · exact absurd ha hno
    · -- the loop passes another replica
      refine h.congr_set hrun hruns hev ?_ hack fun _ => ?_
      · rw [call_other _ _ _ _ _ hreceiver]
      · rcases hcases with ⟨reply, _, hdelivers, _⟩ | ⟨_, rfl⟩
        · cases hdelivers <;> simp_all [Invocation.HasInformed]
        · cases hcall <;> simp_all [Invocation.HasInformed, Phase.tail]
  · refine h.congr_set hrun (call_runs ..) (σ.call_evolves hcall randomFail fate) ?_ hack
      fun hkey => absurd hkey hkey0
    by_cases hreceiver : a = receiver
    · subst hreceiver
      by_cases hfate : fate = .delivered
      · subst hfate
        exact image_of_other_key hprov helections hrun hcall.sends
          (σ.call_handled run inv0 a msg randomFail) hkey0
      · rw [call_undelivered _ _ _ _ _ _ hfate]
    · rw [call_other _ _ _ _ _ hreceiver]

theorem follows_step_advance (hexclusive : Exclusive A key σ) (hprov : Provenance σ) {a : Addr}
    (ha : A a) (h : FollowsAt key a σ) {run : Nat} {inv0 inv1 : Invocation}
    (hrun : σ.runs[run]? = some inv0) (hadvance : inv0.Advances inv1) :
    FollowsAt key a ((σ.setRun run inv1).noteReturn run inv1) := by
  have hev := Invocation.Evolves.advances (hprov.wf run inv0 hrun) hadvance
  have himage : (((σ.setRun run inv1).noteReturn run inv1).servers a).image key =
      (σ.servers a).image key := by
    rw [noteReturn_servers]
    rfl
  have hruns : ((σ.setRun run inv1).noteReturn run inv1).runs = σ.runs.set run inv1 := by
    rw [noteReturn_runs]
    rfl
  cases hadvance with
  | done hphase =>
    by_cases hkey0 : inv0.key = key
    · -- the outcome that the replica already holds becomes acknowledged
      have hinformed : inv0.HasInformed a := by simp [Invocation.HasInformed, hphase]
      refine ⟨fun i inv hi hkey hinf => ?_, fun _ => ?_⟩
      · rw [hruns] at hi
        rcases getElem?_set_cases hrun hi with ⟨rfl, rfl⟩ | ⟨hne, hi⟩
        · exact hinf.elim
        · refine absurd ?_ hne
          exact hexclusive.eq_of_active hi hrun hkey hkey0 hinf.active hinformed.active
      · rw [himage, h.ahead run inv0 hrun hkey0 hinformed, ← hkey0]
        exact (AtomicMap.apply_self _ inv0.request).symm
    · refine h.congr_set hrun hruns hev himage ?_ fun hkey => absurd hkey hkey0
      exact AtomicMap.apply_of_ne _ hkey0
  | startInform hphase hcount =>
    refine h.congr_set hrun hruns hev himage rfl fun hkey0 => ?_
    have hreaches := hexclusive.reaches run inv0 hrun hkey0 a ha
    simp only [Invocation.Reaches, hphase] at hreaches
    simp [Invocation.HasInformed, hphase, hreaches]
  | startPrepare hphase hlive =>
    exact h.congr_set hrun hruns hev himage rfl (by simp [Invocation.HasInformed, hphase])
  | startPropose hphase hcount =>
    exact h.congr_set hrun hruns hev himage rfl (by simp [Invocation.HasInformed, hphase])
  | noneLive message hphase hlive =>
    exact h.congr_set hrun hruns hev himage rfl
      (by simp [Invocation.HasInformed, Invocation.finish, hphase])
  | failedQuorum message hphase hcount =>
    exact h.congr_set hrun hruns hev himage rfl
      (by simp [Invocation.HasInformed, Invocation.finish, hphase])
  | failedConsensus message hphase hcount =>
    exact h.congr_set hrun hruns hev himage rfl
      (by simp [Invocation.HasInformed, Invocation.finish, hphase])

theorem follows_step (hexclusive : Exclusive A key σ) (hprov : Provenance σ)
    (helections : ElectionsReserved σ) {a : Addr} (ha : A a) (h : FollowsAt key a σ)
    (hrespects : Respects A key σ act) (hstep : StepCases σ act σ') : FollowsAt key a σ' := by
  cases hstep with
  | refuse hrefusal =>
    exact h.congr rfl rfl (fun i inv hi hkey hinf => ⟨inv, hi, hkey, hinf⟩)
      fun i inv hi hkey hinf => ⟨inv, hi, hkey, hinf, rfl⟩
  | @enter server request context hrefusal =>
    refine h.congr ?_ rfl ?_ ?_
    · by_cases hs : a = server
      · subst hs
        simp only [Function.update_self]
        rw [(Unchanged.getLatestRound _ _).image_eq]
      · simp only [Function.update_of_ne hs]
    · exact fun i inv hi hkey hinf => ⟨inv, getElem?_snoc_of_some hi, hkey, hinf⟩
    · intro i inv hi hkey hinf
      rcases getElem?_snoc_cases hi with ⟨_, rfl⟩ | hi
      · exact hinf.elim
      · exact ⟨inv, hi, hkey, hinf, rfl⟩
  | call fate randomFail hrun hcall =>
    exact follows_step_call hexclusive hprov helections ha h hrespects hrun hcall
  | advance hrun hadvance => exact follows_step_advance hexclusive hprov ha h hrun hadvance
  | @arrive index run receiver msg context randomFail hindex =>
    refine h.congr ?_ rfl (fun i inv hi hkey hinf => ⟨inv, hi, hkey, hinf⟩)
      fun i inv hi hkey hinf => ⟨inv, hi, hkey, hinf, rfl⟩
    have hmem := List.mem_of_getElem? hindex
    obtain ⟨inv, hrun, hsends⟩ := hprov.sent run receiver msg (hprov.inFlight _ _ _ hmem)
    by_cases hreceiver : a = receiver
    · -- a late call to the replica is on another key
      subst hreceiver
      refine image_of_other_key hprov helections hrun hsends
        (σ.deliver_handled run a msg context randomFail) fun hkey => ?_
      exact hexclusive.inFlight run a msg inv hmem hrun hkey ha
    · exact congrArg (fun s => s.image key)
        (σ.deliver_other run msg context randomFail hreceiver)

theorem followsAt_init (h : σ.IsInitial) (a : Addr) : FollowsAt key a σ where
  ahead i inv hi := by simp [h.runs] at hi
  level _ := by
    rw [h.history, MultiPaxosServiceImpl.image, h.kvDb a, h.coordinator a]
    simp [acknowledged, AtomicMap.initial]

/-- In every run that respects the key and `A`, the replicas of `A` follow. -/
theorem followsAt_of_reachable {setup : System → Prop} {C : System → Action → Prop}
    (hC : ∀ σ act, (paxos setup).Reachable C σ → C σ act → Respects A key σ act)
    (hE : ∀ σ act, C σ act → ElectsOnReserved σ act) (h : (paxos setup).Reachable C σ)
    {a : Addr} (ha : A a) : FollowsAt key a σ := by
  refine ActionSystem.Reachable.invariant ?_ ?_ h
  · intro σ hinit
    exact followsAt_init hinit.1 a
  · intro σ act σ' hreach hcond hstep hfollows
    exact follows_step (exclusive_of_reachable hC hreach) (provenance_of_reachable hreach)
      (electionsReserved_of_reachable hE hreach) ha hfollows (hC _ _ hreach hcond)
      (step_cases hstep)

/-- While no invocation on the key is in progress, the entry is the
acknowledged one. -/
theorem FollowsAt.idle {a : Addr} (h : FollowsAt key a σ) (hidle : σ.Idle key) :
    (σ.servers a).image key = acknowledged σ.history key :=
  h.level fun _ inv hi hkey hinf => hidle inv (List.mem_of_getElem? hi) hkey hinf.active

end System

end PaxosKVStore
