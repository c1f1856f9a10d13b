import PaxosKVStore.Delivery

/-!
# Elections that lose no call

`RandomFail` is not asked on the reserved key, so an acceptor that is reached
promises and accepts.  An invocation on the reserved key that loses no call
therefore returns OK, if there is a replica at all.
-/

namespace PaxosKVStore

namespace Invocation

/-- Every replica that the loops visited has promised and accepted. -/
def Unanimous (inv : Invocation) : Prop :=
  match inv.phase with
  | .ping _ => True
  | .prepare todo => inv.promisedBy ++ todo = inv.livePaxosStubs
  | .propose todo =>
      inv.promisedBy = inv.livePaxosStubs ∧ inv.acceptedBy ++ todo = inv.livePaxosStubs
  | .inform _ => True
  | .returned status => status.ok = true ∨ inv.livePaxosStubs = []

theorem Unanimous.advances {inv inv' : Invocation} (hwf : inv.Wf) (h : inv.Unanimous)
    (hadvance : inv.Advances inv') : inv'.Unanimous := by
  have hprogress := hwf.progress
  cases hadvance with
  | noneLive message hphase hlive => exact Or.inr hlive
  | startPrepare hphase hlive =>
    simp only [Progress, hphase] at hprogress
    simp [Unanimous, hprogress.2.1]
  | failedQuorum message hphase hcount =>
    simp only [Unanimous, hphase, List.append_nil] at h
    rw [hwf.countPromised, h, numOfAcceptors] at hcount
    have hnil : inv.livePaxosStubs = [] := List.eq_nil_of_length_eq_zero (by omega)
    exact Or.inr hnil
  | startPropose hphase hcount =>
    simp only [Progress, hphase] at hprogress
    simp only [Unanimous, hphase, List.append_nil] at h
    simp [Unanimous, h, hprogress.2.2]
  | failedConsensus message hphase hcount =>
    simp only [Unanimous, hphase, List.append_nil] at h
    rw [hwf.countAccepted, h.2, numOfAcceptors] at hcount
    have hnil : inv.livePaxosStubs = [] := List.eq_nil_of_length_eq_zero (by omega)
    exact Or.inr hnil
  | startInform hphase hcount => trivial
  | done hphase => exact Or.inl rfl

end Invocation

namespace System

theorem Delivers.unanimous {σ : System} {inv inv' : Invocation} {addr : Addr}
    {randomFail : Bool} {msg : Message} {reply : Reply} (hkey : inv.key = "coordinator")
    (h : inv.Unanimous) (hdelivers : σ.Delivers inv addr randomFail msg reply inv') :
    inv'.Unanimous := by
  cases hdelivers with
  | ping hphase => trivial
  | refuse hphase hno hreject => exact absurd hkey hreject.1
  | promise hphase hok hreject hlog hid => simp_all [Invocation.Unanimous]
  | adopt hphase hok hreject hlog hid hop hnone => simp_all [Invocation.Unanimous]
  | keep hphase hok hreject hlog hid hone => simp_all [Invocation.Unanimous]
  | reject hphase hno hreject => exact absurd hkey hreject.1
  | accept hphase hok => simp_all [Invocation.Unanimous]
  | inform hphase hiff => trivial

/-- All invocations on the reserved key are unanimous. -/
def ElectionsUnanimous (σ : System) : Prop :=
  ∀ (i : Nat) (inv : Invocation), σ.runs[i]? = some inv → inv.key = "coordinator" →
    inv.Unanimous

theorem electionsUnanimous_step {σ σ' : System} {act : Action} (hprov : Provenance σ)
    (h : ElectionsUnanimous σ) (hdelivered : Delivered σ act) (hstep : StepCases σ act σ') :
    ElectionsUnanimous σ' := by
  intro i inv hi hkey
  cases hstep with
  | refuse hrefusal => exact h i inv hi hkey
  | enter hrefusal =>
    rcases getElem?_snoc_cases hi with ⟨_, rfl⟩ | hi
    · trivial
    · exact h i inv hi hkey
  | @call run inv0 receiver msg fate randomFail hrun hcall =>
    cases hdelivered
    obtain ⟨reply, inv1, hdelivers, hruns, _⟩ := call_delivered hprov hrun hcall randomFail
    rw [hruns] at hi
    rcases getElem?_set_cases hrun hi with ⟨rfl, rfl⟩ | ⟨_, hi⟩
    · have hkey0 : inv0.key = "coordinator" := hdelivers.key ▸ hkey
      exact hdelivers.unanimous hkey0 (h i inv0 hrun hkey0)
    · exact h i inv hi hkey
  | @advance run inv0 inv1 hrun hadvance =>
    rw [noteReturn_runs] at hi
    rcases getElem?_set_cases hrun hi with ⟨rfl, rfl⟩ | ⟨_, hi⟩
    · have hwf := hprov.wf i inv0 hrun
      have hkey0 : inv0.key = "coordinator" :=
        (Invocation.Evolves.advances hwf hadvance).key ▸ hkey
      exact (h i inv0 hrun hkey0).advances hwf hadvance
    · exact h i inv hi hkey
  | arrive context randomFail hindex => exact hdelivered.elim

theorem electionsUnanimous_of_reachable {setup : System → Prop} {C : System → Action → Prop}
    {σ : System} (hC : ∀ σ act, C σ act → Delivered σ act)
    (h : (paxos setup).Reachable C σ) : ElectionsUnanimous σ := by
  refine ActionSystem.Reachable.invariant ?_ ?_ h
  · intro σ hinit i inv hi
    simp [hinit.1.runs] at hi
  · intro σ act σ' hreach hcond hstep hunanimous
    exact electionsUnanimous_step (provenance_of_reachable hreach) hunanimous (hC _ _ hcond)
      (step_cases hstep)

/-- An election over a list with a replica returns OK. -/
theorem election_ok {stubs : PaxosStubs} {σ : System} (hne : stubs.addrs ≠ [])
    (hlossless : Lossless stubs σ) (hunanimous : ElectionsUnanimous σ) {i : Nat}
    {inv : Invocation} {status : Status} (hrun : σ.runs[i]? = some inv)
    (hkey : inv.key = "coordinator") (hphase : inv.phase = .returned status) :
    status.ok = true := by
  have hun := hunanimous i inv hrun hkey
  have hsees := hlossless.sees i inv hrun
  simp only [Invocation.Unanimous, hphase] at hun
  simp only [SeesAll, hphase] at hsees
  rcases hun with hok | hnil
  · exact hok
  · exact absurd (hsees.symm.trans hnil) hne

end System

end PaxosKVStore
