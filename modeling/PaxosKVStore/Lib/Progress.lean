import Mathlib.Order.Monotone.Basic
import Mathlib.Data.Nat.Basic
import PaxosKVStore.Lib.ActionSystem

/-!
# Progress of one component

A component of an action system has a measure: its own steps decrease it, and
no step of the others increases it.  Then the component takes no more steps of
its own than the measure allows, in any run and whatever the others do.  If it
can take a step as long as it is not done, and gets its turn again and again,
then it is done at some time.

A component may also not notice the steps of the others.  Then it does alone
what it does among them.

Nothing here names a particular system.
-/

namespace ActionSystem

variable {State Action : Type} {T : ActionSystem State Action}

/-- The actions lead from one state to the other. -/
inductive Run (T : ActionSystem State Action) : State → List Action → State → Prop where
  | nil (s : State) : Run T s [] s
  | cons {s s' s'' : State} {act : Action} {acts : List Action}
      (hstep : T.step s act = some s') (hrun : Run T s' acts s'') : Run T s (act :: acts) s''

/-- What every step keeps, a run keeps. -/
theorem Run.invariant {I : State → Prop} {s s' : State} {acts : List Action} (h : T.Run s acts s')
    (hstep : ∀ s act s', I s → T.step s act = some s' → I s') (hs : I s) : I s' := by
  induction h with
  | nil s => exact hs
  | cons h0 _ ih => exact ih (hstep _ _ _ hs h0)

/-- The result of an evaluated run. -/
theorem Run.of_execWhere {C : State → Action → Prop} [∀ s act, Decidable (C s act)]
    {s s' : State} {acts : List Action} (h : T.execWhere C s acts = some s') : T.Run s acts s' := by
  induction acts generalizing s with
  | nil =>
    cases h
    exact .nil _
  | cons act rest ih =>
    rw [execWhere] at h
    split at h
    · split at h
      · rename_i s1 hstep
        exact .cons hstep (ih h)
      · cases h
    · cases h

/-- A component that has `I` as its invariant and `own` as its actions.  The
measure bounds what it has still to do. -/
structure Measured (T : ActionSystem State Action) (I : State → Prop) (own : Action → Prop)
    (measure : State → Nat) : Prop where
  keeps : ∀ s act s', I s → T.step s act = some s' → I s'
  own_lt : ∀ s act s', I s → own act → T.step s act = some s' → measure s' < measure s
  other_le : ∀ s act s', I s → ¬ own act → T.step s act = some s' → measure s' ≤ measure s

variable {I : State → Prop} {own : Action → Prop} {measure : State → Nat}

/-- The measure pays for the component's own steps. -/
theorem Measured.countP_le [DecidablePred own] (h : T.Measured I own measure) {s s' : State}
    {acts : List Action} (hrun : T.Run s acts s') (hs : I s) :
    acts.countP own + measure s' ≤ measure s := by
  induction hrun with
  | nil s => simp
  | @cons s s' s'' act acts hstep hrun ih =>
    have hrest := ih (h.keeps _ _ _ hs hstep)
    rw [List.countP_cons]
    by_cases hown : own act
    · have hlt := h.own_lt _ _ _ hs hown hstep
      simp [hown]
      omega
    · have hle := h.other_le _ _ _ hs hown hstep
      simp [hown]
      omega

/-- A component that does not notice what the others do takes its steps in the
same way without them.  `R` says what it does not notice. -/
theorem Run.alone [DecidablePred own] {R : State → State → Prop}
    (hown : ∀ s t act s', R s t → own act → T.step s act = some s' →
      ∃ t', T.step t act = some t' ∧ R s' t')
    (hother : ∀ s t act s', R s t → ¬ own act → T.step s act = some s' → R s' t)
    {s s' t : State} {acts : List Action} (hrun : T.Run s acts s') (h : R s t) :
    ∃ t', T.Run t (acts.filter fun act => own act) t' ∧ R s' t' := by
  induction hrun generalizing t with
  | nil s => exact ⟨t, .nil t, h⟩
  | @cons s s₁ s' act acts hstep _ ih =>
    by_cases hact : own act
    · obtain ⟨t₁, ht₁, h₁⟩ := hown s t act s₁ h hact hstep
      obtain ⟨t', hrun', h'⟩ := ih h₁
      refine ⟨t', ?_, h'⟩
      rw [List.filter_cons, if_pos (decide_eq_true hact)]
      exact .cons ht₁ hrun'
    · rw [List.filter_cons, if_neg (by simpa using hact)]
      exact ih (hother s t act s₁ h hact hstep)

/-- An infinite run in which the component gets its turn again and again
unless it is done. -/
structure FairRun (T : ActionSystem State Action) (own : Action → Prop) (done : State → Prop)
    (state : Nat → State) (action : Nat → Action) : Prop where
  step : ∀ n, T.step (state n) (action n) = some (state (n + 1))
  fair : ∀ n, ¬ done (state n) → ∃ m, n ≤ m ∧ own (action m)

/-- The component is done at some time. -/
theorem Measured.eventually_done (h : T.Measured I own measure) {done : State → Prop}
    {state : Nat → State} {action : Nat → Action} (hrun : T.FairRun own done state action)
    (hs : I (state 0)) : ∃ n, done (state n) := by
  have hI : ∀ n, I (state n) := by
    intro n
    induction n with
    | zero => exact hs
    | succ n ih => exact h.keeps _ _ _ ih (hrun.step n)
  have hle : ∀ n, measure (state (n + 1)) ≤ measure (state n) := by
    intro n
    by_cases hown : own (action n)
    · exact Nat.le_of_lt (h.own_lt _ _ _ (hI n) hown (hrun.step n))
    · exact h.other_le _ _ _ (hI n) hown (hrun.step n)
  by_contra hnot
  have hturn : ∀ n, ∃ m, n ≤ m ∧ own (action m) := fun n =>
    hrun.fair n fun hdone => hnot ⟨n, hdone⟩
  -- the measure falls below every bound
  have hfalls : ∀ k, ∃ n, measure (state n) + k ≤ measure (state 0) := by
    intro k
    induction k with
    | zero => exact ⟨0, le_rfl⟩
    | succ k ih =>
      obtain ⟨n, hn⟩ := ih
      obtain ⟨m, hnm, hown⟩ := hturn n
      have hlt := h.own_lt _ _ _ (hI m) hown (hrun.step m)
      have hanti : Antitone fun n => measure (state n) := antitone_nat_of_succ_le hle
      have hfell : measure (state m) ≤ measure (state n) := hanti hnm
      exact ⟨m + 1, by omega⟩
  obtain ⟨n, hn⟩ := hfalls (measure (state 0) + 1)
  omega

end ActionSystem
