import PaxosKVStore.Acceptances
import PaxosKVStore.Course

/-!
# The runs of a coordinator beside a server that recovers

The coordinator `C` runs any number of invocations while the server `N`
recovers from it.  A server may not yet answer a `Ping`, and every other call is
delivered: `RunsBeside`.  These invocations have the indices from `n` on, and
nothing else moves.

`CoordinatorRuns` is what they keep at the two servers.  Their rounds are above
all that `C` had logged, so the newest of them decides: a server that it has
informed shows what it wrote.  That two invocations of one slot propose the
same is the condition `Disagrees` on a step.
-/

namespace PaxosKVStore

open MultiPaxosServiceImpl (Rejects)

namespace Invocation

instance (inv : Invocation) (a : Addr) : Decidable (inv.Informed a) :=
  match hphase : inv.phase with
  | .inform todo =>
      decidable_of_iff (a ∈ inv.livePaxosStubs ∧ a ∉ todo) (by rw [Informed, hphase])
  | .returned status =>
      decidable_of_iff (status.ok = true ∧ a ∈ inv.livePaxosStubs) (by rw [Informed, hphase])
  | .ping _ => isFalse (by simp [Informed, hphase])
  | .prepare _ => isFalse (by simp [Informed, hphase])
  | .propose _ => isFalse (by simp [Informed, hphase])

end Invocation

namespace System

/-- Only the `Ping` to another server than `C` gets lost. -/
def MayLose (C : Addr) (call : Addr × Message) : Prop :=
  call.2 = .ping ∧ call.1 ≠ C

instance (C : Addr) (call : Addr × Message) : Decidable (MayLose C call) :=
  inferInstanceAs (Decidable (_ ∧ _))

/-- A step of the updates that `C` runs, which are the invocations from the
index `n` on.  Nothing fails but a `Ping`. -/
def RunsBeside (C : Addr) (n : Nat) (σ : System) : Action → Prop
  | .start server request _ => server = C ∧ request.IsUpdate
  | .call run fate randomFail =>
      n ≤ run ∧ randomFail = false ∧ ∀ inv ∈ σ.runs[run]?, ∀ call ∈ inv.nextCall,
        fate = .delivered ∨ MayLose C call
  | .advance run => n ≤ run
  | .arrive .. => False

instance (C : Addr) (n : Nat) (σ : System) : ∀ act, Decidable (σ.RunsBeside C n act)
  | .start _ _ _ => inferInstanceAs (Decidable (_ ∧ _))
  | .call run fate randomFail =>
      inferInstanceAs (Decidable (n ≤ run ∧ randomFail = false ∧ ∀ inv ∈ σ.runs[run]?,
        ∀ call ∈ inv.nextCall, fate = .delivered ∨ MayLose C call))
  | .advance _ => inferInstanceAs (Decidable (_ ≤ _))
  | .arrive .. => isFalse id

/-- The invocation is about to propose something else than another one has
proposed for its slot. -/
def Disagrees (n : Nat) (σ : System) (inv : Invocation) : Prop :=
  inv.phase = .prepare [] ∧ ∃ other ∈ σ.runs.drop n, other.Proposed ∧
    other.key = inv.key ∧ other.round = inv.round ∧ other.proposal ≠ inv.proposal

instance (n : Nat) (σ : System) (inv : Invocation) : Decidable (σ.Disagrees n inv) :=
  inferInstanceAs (Decidable (_ ∧ ∃ other ∈ σ.runs.drop n, other.Proposed ∧
    other.key = inv.key ∧ other.round = inv.round ∧ other.proposal ≠ inv.proposal))

/-- No invocation on the key has a higher round. -/
def Newest (n : Nat) (σ : System) (key : String) (r : Int) : Prop :=
  ∀ inv ∈ σ.runs.drop n, inv.key = key → inv.round ≤ r

instance (n : Nat) (σ : System) (key : String) (r : Int) : Decidable (σ.Newest n key r) :=
  inferInstanceAs (Decidable (∀ inv ∈ σ.runs.drop n, inv.key = key → inv.round ≤ r))

/-! ## The steps, case by case -/

variable {C N : Addr} {stubs : PaxosStubs} {n : Nat} {σ σ' : System} {act : Action}

/-- The moves of an invocation that reach no server. -/
inductive Goes (C : Addr) (run : Nat) (inv : Invocation) :
    Action → Invocation → Prop where
  | lose {act : Action} {receiver : Addr} {todo : List Addr}
      (hphase : inv.phase = .ping (receiver :: todo)) (hne : receiver ≠ C) :
      Goes C run inv act { inv with phase := .ping todo }
  | advance {inv' : Invocation} (hadvance : inv.Advances inv') :
      Goes C run inv (.advance run) inv'

inductive RunsCases (C : Addr) (n : Nat) (σ : System) : Action → System → Prop where
  | refuse {act : Action} {σ' : System} (hruns : σ'.runs = σ.runs)
      (hservers : σ'.servers = σ.servers) : RunsCases C n σ act σ'
  | enter {act : Action} {σ' : System} {request : Request} (hupdate : request.IsUpdate)
      (hruns : σ'.runs = σ.runs ++ [Invocation.enter C (σ.servers C) request])
      (hservers : ∀ a, Unchanged (σ.servers a) (σ'.servers a)) : RunsCases C n σ act σ'
  | goes {act : Action} {σ' : System} {run : Nat} {inv inv' : Invocation} (hn : n ≤ run)
      (hrun : σ.runs[run]? = some inv) (hgoes : Goes C run inv act inv')
      (hruns : σ'.runs = σ.runs.set run inv') (hservers : σ'.servers = σ.servers) :
      RunsCases C n σ act σ'
  | deliver {σ' : System} {run : Nat} {inv inv' : Invocation} {receiver : Addr} {msg : Message}
      {reply : Reply} (hn : n ≤ run) (hrun : σ.runs[run]? = some inv)
      (hcall : inv.Calls receiver msg)
      (hdelivers : σ.Delivers inv receiver false msg reply inv') (hevolves : inv.Evolves inv')
      (hruns : σ'.runs = σ.runs.set run inv')
      (hservers : σ'.servers = Function.update σ.servers receiver
        ((σ.servers receiver).handle {} false msg).2) :
      RunsCases C n σ (.call run .delivered false) σ'

theorem runs_cases (hprov : Provenance σ) (hat : σ.RunsBeside C n act)
    (hstep : StepCases σ act σ') : RunsCases C n σ act σ' := by
  cases hstep with
  | refuse hrefusal => exact .refuse rfl rfl
  | @enter server request context hrefusal =>
    obtain ⟨rfl, hupdate⟩ := hat
    exact .enter hupdate rfl (Unchanged.enter σ.servers server request.key)
  | @call run inv receiver msg fate randomFail hrun hcall =>
    obtain ⟨hn, rfl, hfates⟩ := hat
    by_cases hdelivered : fate = .delivered
    · subst hdelivered
      obtain ⟨reply, inv', hdelivers, hruns, _, _, _, hevolves⟩ :=
        call_delivered hprov hrun hcall false
      exact .deliver hn hrun hcall hdelivers hevolves hruns rfl
    · obtain ⟨hping, hne⟩ :=
        (hfates inv hrun (receiver, msg) (Invocation.nextCall_of_calls hcall)).resolve_left
          hdelivered
      obtain ⟨hruns, _, hservers⟩ := @call_lost σ run inv receiver msg fate false hdelivered
      cases hcall with
      | @ping todo hphase =>
        rw [hphase] at hruns
        exact .goes hn hrun (.lose hphase hne) hruns hservers
      | _ => cases hping
  | @advance run inv inv' hrun hadvance =>
    exact .goes hat hrun (.advance hadvance) (noteReturn_runs _ _ _) (noteReturn_servers _ _ _)
  | arrive context randomFail hindex => exact hat.elim

/-! ## The invocations before and after a step -/

theorem mem_drop_of_getElem? {runs : List Invocation} {run : Nat} {inv : Invocation}
    (hn : n ≤ run) (hrun : runs[run]? = some inv) : inv ∈ runs.drop n := by
  refine List.mem_iff_getElem?.mpr ⟨run - n, ?_⟩
  rw [List.getElem?_drop, show n + (run - n) = run by omega]
  exact hrun

theorem getElem?_of_mem_drop {runs : List Invocation} {inv : Invocation}
    (h : inv ∈ runs.drop n) : ∃ run, n ≤ run ∧ runs[run]? = some inv := by
  obtain ⟨k, hk⟩ := List.mem_iff_getElem?.mp h
  rw [List.getElem?_drop] at hk
  exact ⟨n + k, by omega, hk⟩

section Set

variable {runs : List Invocation} {run : Nat} {inv inv' other : Invocation}

theorem mem_drop_set_cases (hrun : runs[run]? = some inv)
    (h : other ∈ (runs.set run inv').drop n) : other = inv' ∨ other ∈ runs.drop n := by
  obtain ⟨i, hi, hother⟩ := getElem?_of_mem_drop h
  rcases getElem?_set_cases hrun hother with ⟨_, rfl⟩ | ⟨_, hold⟩
  · exact Or.inl rfl
  · exact Or.inr (mem_drop_of_getElem? hi hold)

theorem mem_drop_set_self (hn : n ≤ run) (hrun : runs[run]? = some inv) :
    inv' ∈ (runs.set run inv').drop n :=
  mem_drop_of_getElem? hn (getElem?_set_self' hrun)

theorem mem_drop_set_of_mem (hrun : runs[run]? = some inv) (h : other ∈ runs.drop n) :
    other = inv ∨ other ∈ (runs.set run inv').drop n := by
  obtain ⟨i, hi, hother⟩ := getElem?_of_mem_drop h
  by_cases hne : i = run
  · subst hne
    rw [hrun] at hother
    exact Or.inl (Option.some.inj hother).symm
  · right
    refine mem_drop_of_getElem? hi ?_
    rw [List.getElem?_set_ne (Ne.symm hne)]
    exact hother

theorem mem_drop_snoc_cases (h : other ∈ (runs ++ [inv]).drop n) :
    other = inv ∨ other ∈ runs.drop n := by
  obtain ⟨i, hi, hother⟩ := getElem?_of_mem_drop h
  rcases getElem?_snoc_cases hother with ⟨_, rfl⟩ | hold
  · exact Or.inl rfl
  · exact Or.inr (mem_drop_of_getElem? hi hold)

theorem mem_drop_snoc_of_mem (h : other ∈ runs.drop n) : other ∈ (runs ++ [inv]).drop n := by
  obtain ⟨i, hi, hother⟩ := getElem?_of_mem_drop h
  exact mem_drop_of_getElem? hi (getElem?_snoc_of_some hother)

end Set

/-! ## What the invocations keep -/

/-- The invocations of the coordinator `C`, and what they leave at `C` and at
the server `N`. -/
structure CoordinatorRuns (C N : Addr) (stubs : PaxosStubs) (n : Nat) (σ : System) : Prop where
  update : ∀ inv ∈ σ.runs.drop n, inv.request.IsUpdate
  course : ∀ inv ∈ σ.runs.drop n, ∃ live, C ∈ live ∧ inv.OnCourse live stubs.addrs
  agree : ∀ inv ∈ σ.runs.drop n, ∀ inv' ∈ σ.runs.drop n, inv.Proposed → inv'.Proposed →
    inv'.key = inv.key → inv'.round = inv.round → inv'.proposal = inv.proposal
  logged : ∀ inv ∈ σ.runs.drop n, ∀ a, inv.Informed a → inv.round ∈ (σ.db a).rounds inv.key
  bounded : ∀ key R, (∃ inv ∈ σ.runs.drop n, inv.key = key) → σ.Newest n key R →
    ∀ r ∈ (σ.db C).rounds key, r ≤ R
  origin : ∀ key, ∀ r ∈ (σ.db N).rounds key,
    r ∈ (σ.db C).rounds key ∨ ∃ inv ∈ σ.runs.drop n, inv.key = key ∧ inv.round = r
  shows : ∀ inv ∈ σ.runs.drop n, σ.Newest n inv.key inv.round → ∀ a, a = C ∨ a = N →
    inv.Informed a → (σ.db a).getValue inv.key = inv.proposal.effect none

theorem Goes.evolves {run : Nat} {inv inv' : Invocation} (hwf : inv.Wf)
    (h : Goes C run inv act inv') : inv.Evolves inv' := by
  cases h with
  | @lose _ receiver todo hphase hne =>
    have hevolves := Invocation.Evolves.receives (.ofLost (.ping hphase))
    rw [hphase] at hevolves
    exact hevolves
  | advance hadvance => exact .advances hwf hadvance

theorem Goes.informed {run : Nat} {inv inv' : Invocation} {a : Addr}
    (h : Goes C run inv act inv') (hinformed : inv'.Informed a) : inv.Informed a := by
  cases h with
  | lose hphase hne => exact hinformed.elim
  | advance hadvance => exact hadvance.informed hinformed

/-- An invocation goes on, and keeps its key and its round. -/
theorem RunsCases.forth (hprov : Provenance σ) (h : RunsCases C n σ act σ')
    {inv : Invocation} (hinv : inv ∈ σ.runs.drop n) :
    ∃ inv' ∈ σ'.runs.drop n, inv.Evolves inv' := by
  cases h with
  | refuse hruns hservers => exact ⟨inv, by rwa [hruns], .refl inv⟩
  | enter hupdate hruns hservers =>
    exact ⟨inv, by rw [hruns]; exact mem_drop_snoc_of_mem hinv, .refl inv⟩
  | @goes _ _ run inv0 inv1 hn hrun hgoes hruns hservers =>
    rw [hruns]
    rcases mem_drop_set_of_mem hrun hinv with rfl | hmem
    · exact ⟨inv1, mem_drop_set_self hn hrun, hgoes.evolves (hprov.wf _ _ hrun)⟩
    · exact ⟨inv, hmem, .refl inv⟩
  | @deliver _ run inv0 inv1 receiver msg reply hn hrun hcall hdelivers hevolves hruns hservers =>
    rw [hruns]
    rcases mem_drop_set_of_mem hrun hinv with rfl | hmem
    · exact ⟨inv1, mem_drop_set_self hn hrun, hevolves⟩
    · exact ⟨inv, hmem, .refl inv⟩

/-- An invocation was there before the step, or it is a new one. -/
theorem RunsCases.back (hprov : Provenance σ) (h : RunsCases C n σ act σ')
    {inv' : Invocation} (hinv' : inv' ∈ σ'.runs.drop n) :
    (∃ inv ∈ σ.runs.drop n, inv.Evolves inv') ∨ ∃ request : Request, request.IsUpdate ∧
      inv' = Invocation.enter C (σ.servers C) request := by
  cases h with
  | refuse hruns hservers => exact Or.inl ⟨inv', by rwa [← hruns], .refl inv'⟩
  | @enter _ _ request hupdate hruns hservers =>
    rw [hruns] at hinv'
    rcases mem_drop_snoc_cases hinv' with rfl | hold
    · exact Or.inr ⟨request, hupdate, rfl⟩
    · exact Or.inl ⟨inv', hold, .refl inv'⟩
  | @goes _ _ run inv inv1 hn hrun hgoes hruns hservers =>
    rw [hruns] at hinv'
    rcases mem_drop_set_cases hrun hinv' with rfl | hold
    · exact Or.inl ⟨inv, mem_drop_of_getElem? hn hrun, hgoes.evolves (hprov.wf run inv hrun)⟩
    · exact Or.inl ⟨inv', hold, .refl inv'⟩
  | @deliver _ run inv inv1 receiver msg reply hn hrun hcall hdelivers hevolves hruns hservers =>
    rw [hruns] at hinv'
    rcases mem_drop_set_cases hrun hinv' with rfl | hold
    · exact Or.inl ⟨inv, mem_drop_of_getElem? hn hrun, hevolves⟩
    · exact Or.inl ⟨inv', hold, .refl inv'⟩

/-- Who is the newest after a step was it before. -/
theorem RunsCases.newest (hprov : Provenance σ) (h : RunsCases C n σ act σ') {key : String}
    {R : Int} (hnewest : σ'.Newest n key R) : σ.Newest n key R := by
  intro inv hinv hkey
  obtain ⟨inv', hinv', hevolves⟩ := h.forth hprov hinv
  rw [← hevolves.round]
  exact hnewest inv' hinv' (hevolves.key.trans hkey)

/-- A server that answers all calls is reached by all later loops. -/
theorem course_step (hprov : Provenance σ) (hshares : SharesReplicas stubs σ)
    (hC : C ∈ stubs.addrs) (h : CoordinatorRuns C N stubs n σ)
    (hstep : RunsCases C n σ act σ') :
    ∀ inv ∈ σ'.runs.drop n, ∃ live, C ∈ live ∧ inv.OnCourse live stubs.addrs := by
  intro inv' hinv'
  cases hstep with
  | refuse hruns hservers =>
    rw [hruns] at hinv'
    exact h.course inv' hinv'
  | enter hupdate hruns hservers =>
    rw [hruns] at hinv'
    rcases mem_drop_snoc_cases hinv' with rfl | hold
    · refine ⟨[C], List.mem_singleton.mpr rfl, [], ?_, rfl, rfl, rfl⟩
      rw [List.nil_append, PaxosStubsMap.getPaxosStubs, hshares]
    · exact h.course inv' hold
  | @goes _ _ run inv inv1 hn hrun hgoes hruns hservers =>
    rw [hruns] at hinv'
    rcases mem_drop_set_cases hrun hinv' with rfl | hold
    · obtain ⟨live, hlive, hcourse⟩ := h.course inv (mem_drop_of_getElem? hn hrun)
      cases hgoes with
      | @lose _ receiver todo hphase hne =>
        have hcourse' : inv.OnCourse (live.filter (· ≠ receiver)) stubs.addrs :=
          hcourse.congr_ping hphase stubs.nodup fun a ha => by simp [ha]
        have hlost := hcourse'.lose hphase (by simp)
        rw [hphase] at hlost
        exact ⟨_, by simp [hlive, Ne.symm hne], hlost⟩
      | advance hadvance =>
        refine ⟨live, hlive, hcourse.advance (hprov.wf run inv hrun) ?_ hadvance⟩
        exact List.ne_nil_of_mem (Invocation.mem_reached.mpr ⟨hC, hlive⟩)
    · exact h.course inv' hold
  | @deliver _ run inv inv1 receiver msg reply hn hrun hcall hdelivers hevolves hruns hservers =>
    rw [hruns] at hinv'
    rcases mem_drop_set_cases hrun hinv' with rfl | hold
    · obtain ⟨live, hlive, hcourse⟩ := h.course inv (mem_drop_of_getElem? hn hrun)
      have hfail : ¬ Rejects inv.key false := fun hrejects => by cases hrejects.2
      by_cases hping : msg = .ping
      · subst hping
        cases hcall with
        | @ping todo hphase =>
          have hcourse' : inv.OnCourse (receiver :: live) stubs.addrs :=
            hcourse.congr_ping hphase stubs.nodup fun a ha => by simp [ha]
          exact ⟨_, List.mem_cons_of_mem _ hlive,
            hcourse'.deliver hfail List.mem_cons_self hdelivers⟩
      · exact ⟨live, hlive, hcourse.deliver hfail (hcourse.next_live hcall hping) hdelivers⟩
    · exact h.course inv' hold

/-- Who proposes after a delivered call did so before. -/
theorem Delivers.proposed_back {inv inv' : Invocation} {receiver : Addr} {randomFail : Bool}
    {msg : Message} {reply : Reply} (h : σ.Delivers inv receiver randomFail msg reply inv')
    (hproposed : inv'.Proposed) : inv.Proposed := by
  cases h with
  | reject hphase hno hreject => simp [Invocation.Proposed, hphase]
  | accept hphase hok => simp [Invocation.Proposed, hphase]
  | inform hphase hiff => simp [Invocation.Proposed, hphase]
  | _ => exact hproposed.elim

/-- A step that does not disagree keeps the proposals of a slot the same. -/
theorem agree_step (hprov : Provenance σ) (h : CoordinatorRuns C N stubs n σ)
    (hagrees : ∀ run, act = .advance run → ∀ inv ∈ σ.runs[run]?, ¬ σ.Disagrees n inv)
    (hstep : RunsCases C n σ act σ') :
    ∀ inv ∈ σ'.runs.drop n, ∀ inv' ∈ σ'.runs.drop n, inv.Proposed → inv'.Proposed →
      inv'.key = inv.key → inv'.round = inv.round → inv'.proposal = inv.proposal := by
  have hset : ∀ {run : Nat} {inv inv' : Invocation}, n ≤ run → σ.runs[run]? = some inv →
      inv.Evolves inv' →
      (inv'.Proposed → ∀ other ∈ σ.runs.drop n, other.Proposed → other.key = inv.key →
        other.round = inv.round → other.proposal = inv'.proposal) →
      ∀ one ∈ (σ.runs.set run inv').drop n, ∀ other ∈ (σ.runs.set run inv').drop n,
        one.Proposed → other.Proposed → other.key = one.key → other.round = one.round →
        other.proposal = one.proposal := by
    intro run inv inv' hn hrun hevolves hnew one hone other hother hp hp' hkey hround
    rcases mem_drop_set_cases hrun hone with rfl | hold
    · rcases mem_drop_set_cases hrun hother with rfl | hold'
      · rfl
      · exact hnew hp other hold' hp' (hkey.trans hevolves.key) (hround.trans hevolves.round)
    · rcases mem_drop_set_cases hrun hother with rfl | hold'
      · exact (hnew hp' one hold hp (hkey.symm.trans hevolves.key)
          (hround.symm.trans hevolves.round)).symm
      · exact h.agree one hold other hold' hp hp' hkey hround
  -- an invocation that proposes already
  have hproposes : ∀ {run : Nat} {inv inv' : Invocation}, n ≤ run → σ.runs[run]? = some inv →
      inv.Evolves inv' → inv.Proposed → ∀ other ∈ σ.runs.drop n, other.Proposed →
      other.key = inv.key → other.round = inv.round → other.proposal = inv'.proposal := by
    intro run inv inv' hn hrun hevolves hp other hother hp' hkey hround
    rw [(hevolves.proposed hp).2.2]
    exact h.agree inv (mem_drop_of_getElem? hn hrun) other hother hp hp' hkey hround
  cases hstep with
  | refuse hruns hservers =>
    rw [hruns]
    exact h.agree
  | enter hupdate hruns hservers =>
    rw [hruns]
    intro inv hinv inv' hinv' hp hp'
    rcases mem_drop_snoc_cases hinv with rfl | hold
    · exact hp.elim
    · rcases mem_drop_snoc_cases hinv' with rfl | hold'
      · exact hp'.elim
      · exact h.agree inv hold inv' hold' hp hp'
  | @goes _ _ run inv inv' hn hrun hgoes hruns hservers =>
    have hwf := hprov.wf run inv hrun
    have hevolves := hgoes.evolves hwf
    rw [hruns]
    refine hset hn hrun hevolves fun hp' other hother hp hkey hround => ?_
    cases hgoes with
    | lose hphase hne => exact hp'.elim
    | advance hadvance =>
      by_cases hp0 : inv.Proposed
      · exact hproposes hn hrun hevolves hp0 other hother hp hkey hround
      · have hphase : inv.phase = .prepare [] :=
          ((hadvance.proposed hwf hp').resolve_left hp0).1
        have hsame : inv'.proposal = inv.proposal := by cases hadvance <;> rfl
        by_contra hne
        exact hagrees run rfl inv hrun
          ⟨hphase, other, hother, hp, hkey, hround, fun heq => hne (heq.trans hsame.symm)⟩
  | deliver hn hrun hcall hdelivers hevolves hruns hservers =>
    rw [hruns]
    exact hset hn hrun hevolves fun hp' =>
      hproposes hn hrun hevolves (hdelivers.proposed_back hp')

/-! ## The rounds and the values at the two servers -/

/-- The step leaves the rounds and the values of all servers, and informs no
server. -/
structure Silent (n : Nat) (σ σ' : System) : Prop where
  servers : ∀ a, Unchanged (σ.servers a) (σ'.servers a)
  informed : ∀ inv' ∈ σ'.runs.drop n, ∀ a, inv'.Informed a →
    ∃ inv ∈ σ.runs.drop n, inv.Evolves inv' ∧ inv.Informed a

/-- Every step is silent, or it delivers a call. -/
theorem RunsCases.silent_or (hprov : Provenance σ) (h : RunsCases C n σ act σ') :
    Silent n σ σ' ∨ ∃ run inv inv' receiver msg reply,
      act = .call run .delivered false ∧ n ≤ run ∧ σ.runs[run]? = some inv ∧
      inv.Calls receiver msg ∧ σ.Delivers inv receiver false msg reply inv' ∧
      inv.Evolves inv' ∧ σ'.runs = σ.runs.set run inv' ∧
      σ'.servers = Function.update σ.servers receiver
        ((σ.servers receiver).handle {} false msg).2 := by
  cases h with
  | refuse hruns hservers =>
    refine Or.inl ⟨fun a => ?_, fun inv' hinv' a hinformed => ?_⟩
    · rw [hservers]
      exact .refl _
    · rw [hruns] at hinv'
      exact ⟨inv', hinv', .refl inv', hinformed⟩
  | enter hupdate hruns hservers =>
    refine Or.inl ⟨hservers, fun inv' hinv' a hinformed => ?_⟩
    rw [hruns] at hinv'
    rcases mem_drop_snoc_cases hinv' with rfl | hold
    · exact hinformed.elim
    · exact ⟨inv', hold, .refl inv', hinformed⟩
  | @goes _ _ run inv inv1 hn hrun hgoes hruns hservers =>
    refine Or.inl ⟨fun a => ?_, fun inv' hinv' a hinformed => ?_⟩
    · rw [hservers]
      exact .refl _
    · rw [hruns] at hinv'
      rcases mem_drop_set_cases hrun hinv' with rfl | hold
      · exact ⟨inv, mem_drop_of_getElem? hn hrun, hgoes.evolves (hprov.wf run inv hrun),
          hgoes.informed hinformed⟩
      · exact ⟨inv', hold, .refl inv', hinformed⟩
  | deliver hn hrun hcall hdelivers hevolves hruns hservers =>
    exact Or.inr ⟨_, _, _, _, _, _, rfl, hn, hrun, hcall, hdelivers, hevolves, hruns, hservers⟩

theorem Silent.mem_rounds (h : Silent n σ σ') (a : Addr) (key : String) (r : Int) :
    r ∈ (σ'.db a).rounds key ↔ r ∈ (σ.db a).rounds key :=
  (h.servers a).mem_rounds key r

theorem Silent.getValue (h : Silent n σ σ') (a : Addr) (key : String) :
    (σ'.db a).getValue key = (σ.db a).getValue key :=
  (h.servers a).value key

/-- A committed invocation calls with `Inform`. -/
theorem ne_ping_of_committed {inv : Invocation} {receiver : Addr} {msg : Message}
    (hcall : inv.Calls receiver msg) (hcommitted : inv.Committed) : msg ≠ .ping := by
  rintro rfl
  cases hcall with
  | ping hphase => simp [Invocation.Committed, hphase] at hcommitted

/-- Every server that an invocation has informed has logged its round. -/
theorem logged_step (hprov : Provenance σ) (h : CoordinatorRuns C N stubs n σ)
    (hstep : RunsCases C n σ act σ') :
    ∀ inv ∈ σ'.runs.drop n, ∀ a, inv.Informed a → inv.round ∈ (σ'.db a).rounds inv.key := by
  intro inv' hinv' a hinformed
  rcases hstep.silent_or hprov with hsilent |
    ⟨run, inv, inv1, receiver, msg, reply, rfl, hn, hrun, hcall, hdelivers, hevolves, hruns,
      hservers⟩
  · obtain ⟨inv, hinv, hevolves, hbefore⟩ := hsilent.informed inv' hinv' a hinformed
    rw [hsilent.mem_rounds, hevolves.round, hevolves.key]
    exact h.logged inv hinv a hbefore
  · have hrounds := mem_rounds_deliver (hprov.wf run inv hrun) hcall hservers a
    rw [hrounds]
    rw [hruns] at hinv'
    rcases mem_drop_set_cases hrun hinv' with rfl | hold
    · rw [hevolves.round, hevolves.key]
      rcases hdelivers.informed hinformed with hbefore | ⟨rfl, hcommitted⟩
      · exact Or.inr (h.logged inv (mem_drop_of_getElem? hn hrun) a hbefore)
      · exact Or.inl ⟨rfl, ne_ping_of_committed hcall hcommitted, rfl, rfl⟩
    · exact Or.inr (h.logged inv' hold a hinformed)

/-- A new invocation has a higher round than all that `C` has logged. -/
theorem lt_round_enter (server : Addr) (service : MultiPaxosServiceImpl) (request : Request)
    {r : Int} (hr : r ∈ service.kvDb.rounds request.key) :
    r < (Invocation.enter server service request).round := by
  have hle := KeyValueDataBase.le_latestRound hr
  show r < service.kvDb.latestRound request.key + 1
  omega

/-- No round at `C` is above the newest invocation. -/
theorem bounded_step (hprov : Provenance σ) (h : CoordinatorRuns C N stubs n σ)
    (hstep : RunsCases C n σ act σ') (key : String) (R : Int)
    (hsome : ∃ inv ∈ σ'.runs.drop n, inv.key = key) (hnewest : σ'.Newest n key R) :
    ∀ r ∈ (σ'.db C).rounds key, r ≤ R := by
  intro r hr
  obtain ⟨inv', hinv', rfl⟩ := hsome
  have hold : r ∈ (σ.db C).rounds inv'.key → r ≤ R := by
    intro hr
    rcases hstep.back hprov hinv' with ⟨inv, hinv, hevolves⟩ | ⟨request, _, rfl⟩
    · exact h.bounded _ R ⟨inv, hinv, hevolves.key.symm⟩ (hstep.newest hprov hnewest) r hr
    · have hlt := lt_round_enter C (σ.servers C) request hr
      have hle := hnewest _ hinv' rfl
      omega
  rcases hstep.silent_or hprov with hsilent |
    ⟨run, inv, inv1, receiver, msg, reply, rfl, hn, hrun, hcall, hdelivers, hevolves, hruns,
      hservers⟩
  · exact hold ((hsilent.mem_rounds C _ r).mp hr)
  · rcases (mem_rounds_deliver (hprov.wf run inv hrun) hcall hservers C _ r).mp hr with
      ⟨_, _, hkey, rfl⟩ | hbefore
    · rw [← hevolves.round]
      refine hnewest inv1 ?_ (hevolves.key.trans hkey.symm)
      rw [hruns]
      exact mem_drop_set_self hn hrun
    · exact hold hbefore

/-- A round at `N` is of an invocation, or `C` has logged it. -/
theorem origin_step (hprov : Provenance σ) (h : CoordinatorRuns C N stubs n σ)
    (hstep : RunsCases C n σ act σ') (key : String) :
    ∀ r ∈ (σ'.db N).rounds key,
      r ∈ (σ'.db C).rounds key ∨ ∃ inv ∈ σ'.runs.drop n, inv.key = key ∧ inv.round = r := by
  intro r hr
  have hruns : (∃ inv ∈ σ.runs.drop n, inv.key = key ∧ inv.round = r) →
      ∃ inv ∈ σ'.runs.drop n, inv.key = key ∧ inv.round = r := by
    rintro ⟨inv, hinv, rfl, rfl⟩
    obtain ⟨inv', hinv', hevolves⟩ := hstep.forth hprov hinv
    exact ⟨inv', hinv', hevolves.key, hevolves.round⟩
  rcases hstep.silent_or hprov with hsilent |
    ⟨run, inv, inv1, receiver, msg, reply, rfl, hn, hrun, hcall, hdelivers, hevolves, _,
      hservers⟩
  · rw [hsilent.mem_rounds] at hr ⊢
    exact (h.origin key r hr).imp_right hruns
  · have hrounds := fun a => mem_rounds_deliver (hprov.wf run inv hrun) hcall hservers a key r
    rcases (hrounds N).mp hr with ⟨_, _, rfl, rfl⟩ | hbefore
    · exact Or.inr (hruns ⟨inv, mem_drop_of_getElem? hn hrun, rfl, rfl⟩)
    · rcases h.origin key r hbefore with hlogged | hsome
      · exact Or.inl ((hrounds C).mpr (Or.inr hlogged))
      · exact Or.inr (hruns hsome)

/-- Nor is a round at `N` above the newest invocation. -/
theorem CoordinatorRuns.not_supersedes (h : CoordinatorRuns C N stubs n σ) {inv : Invocation}
    (hinv : inv ∈ σ.runs.drop n) (hnewest : σ.Newest n inv.key inv.round) {a : Addr}
    (ha : a = C ∨ a = N) : ¬ (σ.db a).Supersedes inv.key inv.round := by
  rintro ⟨r, hr, hlt⟩
  have hbounded := h.bounded inv.key inv.round ⟨inv, hinv, rfl⟩ hnewest
  rcases ha with rfl | rfl
  · have := hbounded r hr
    omega
  · rcases h.origin inv.key r hr with hlogged | ⟨other, hother, hkey, rfl⟩
    · have := hbounded r hlogged
      omega
    · have := hnewest other hother hkey
      omega

/-- The newest invocation shows at the servers of the two that it has informed:
what comes later from an older one is not executed there. -/
theorem shows_step (hprov : Provenance σ) (h : CoordinatorRuns C N stubs n σ)
    (hwrites : ∀ inv ∈ σ.runs.drop n, inv.Proposed → ∀ before,
      inv.proposal.effect before = inv.proposal.effect none)
    (hstep : RunsCases C n σ act σ') :
    ∀ inv ∈ σ'.runs.drop n, σ'.Newest n inv.key inv.round → ∀ a, a = C ∨ a = N →
      inv.Informed a → (σ'.db a).getValue inv.key = inv.proposal.effect none := by
  intro inv' hinv' hnewest' a ha hinformed
  have hnewest := hstep.newest hprov hnewest'
  have hwf : ∀ {inv : Invocation}, inv ∈ σ.runs.drop n → inv.Committed → inv.Proposed := by
    intro inv hinv hcommitted
    obtain ⟨run, _, hrun⟩ := getElem?_of_mem_drop hinv
    exact (hprov.wf run inv hrun).proposed_of_committed hcommitted
  rcases hstep.silent_or hprov with hsilent |
    ⟨run, inv, inv1, receiver, msg, reply, rfl, hn, hrun, hcall, hdelivers, hevolves, hruns,
      hservers⟩
  · obtain ⟨inv, hinv, hevolves, hbefore⟩ := hsilent.informed inv' hinv' a hinformed
    rw [hevolves.key, hevolves.round] at hnewest
    rw [hsilent.getValue, hevolves.key,
      (hevolves.proposed (hwf hinv hbefore.committed)).2.2]
    exact h.shows inv hinv hnewest a ha hbefore
  · have hinv := mem_drop_of_getElem? hn hrun
    have hvalue := getValue_deliver (hprov.wf run inv hrun) hcall hservers a
    rw [hvalue]
    -- an invocation that `a` was informed of, and that this call may write over
    have hold : ∀ other ∈ σ.runs.drop n, σ.Newest n other.key other.round →
        other.Informed a →
        (if (a = receiver ∧ other.key = inv.key) ∧ inv.Committed ∧
            ¬ (σ.db receiver).Supersedes inv.key inv.round then
          inv.proposal.effect ((σ.db a).getValue other.key)
        else (σ.db a).getValue other.key) = other.proposal.effect none := by
      intro other hother hnewest hinformed
      have hshown := h.shows other hother hnewest a ha hinformed
      split
      · rename_i hexecutes
        obtain ⟨⟨rfl, hkey⟩, hcommitted, hlatest⟩ := hexecutes
        have hupper : inv.round ≤ other.round := hnewest inv hinv hkey.symm
        have hlower : ¬ inv.round < other.round := fun hlt =>
          hlatest ⟨other.round, hkey ▸ h.logged other hother a hinformed, hlt⟩
        have hsame := h.agree inv hinv other hother (hwf hinv hcommitted)
          (hwf hother hinformed.committed) hkey (by omega)
        rw [hwrites inv hinv (hwf hinv hcommitted), hsame]
      · exact hshown
    rw [hruns] at hinv'
    rcases mem_drop_set_cases hrun hinv' with rfl | hmem
    · rw [hevolves.key, hevolves.round] at hnewest
      rw [hevolves.key]
      rcases hdelivers.informed hinformed with hbefore | ⟨rfl, hcommitted⟩
      · rw [(hevolves.proposed (hwf hinv hbefore.committed)).2.2]
        exact hold inv hinv hnewest hbefore
      · rw [if_pos ⟨⟨rfl, rfl⟩, hcommitted, h.not_supersedes hinv hnewest ha⟩,
          hwrites inv hinv (hwf hinv hcommitted),
          (hevolves.proposed (hwf hinv hcommitted)).2.2]
    · exact hold inv' hmem hnewest hinformed

theorem coordinatorRuns_step (hprov : Provenance σ) (hshares : SharesReplicas stubs σ)
    (hC : C ∈ stubs.addrs) (h : CoordinatorRuns C N stubs n σ)
    (hagrees : ∀ run, act = .advance run → ∀ inv ∈ σ.runs[run]?, ¬ σ.Disagrees n inv)
    (hwrites : ∀ inv ∈ σ.runs.drop n, inv.Proposed → ∀ before,
      inv.proposal.effect before = inv.proposal.effect none)
    (hstep : RunsCases C n σ act σ') : CoordinatorRuns C N stubs n σ' where
  update inv' hinv' := by
    rcases hstep.back hprov hinv' with ⟨inv, hinv, hevolves⟩ | ⟨request, hupdate, rfl⟩
    · rw [hevolves.request]
      exact h.update inv hinv
    · exact hupdate
  course := course_step hprov hshares hC h hstep
  agree := agree_step hprov h hagrees hstep
  logged := logged_step hprov h hstep
  bounded := bounded_step hprov h hstep
  origin := origin_step hprov h hstep
  shows := shows_step hprov h hwrites hstep

/-- There are no invocations at the start, and nothing is at `N` yet. -/
theorem coordinatorRuns_start (hruns : n = σ.runs.length) (hN : (σ.servers N).kvDb = {}) :
    CoordinatorRuns C N stubs n σ := by
  have hno : ∀ inv, inv ∉ σ.runs.drop n := by
    rw [hruns, List.drop_length]
    exact fun inv => List.not_mem_nil
  refine ⟨fun inv hinv => absurd hinv (hno inv), fun inv hinv => absurd hinv (hno inv),
    fun inv hinv => absurd hinv (hno inv), fun inv hinv => absurd hinv (hno inv), ?_, ?_,
    fun inv hinv => absurd hinv (hno inv)⟩
  · rintro key R ⟨inv, hinv, _⟩
    exact absurd hinv (hno inv)
  · intro key r hr
    rw [db, hN] at hr
    simp at hr

end System

end PaxosKVStore
