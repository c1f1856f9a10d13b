import Mathlib.Data.List.Nodup
import Mathlib.Logic.Function.Basic

/-!
# Visiting the components of a family

A caller asks the components of a family one after the other.  Each component
answers from its own state and changes only that, and the caller folds the
answers.  `visit` is this loop.

If no component is visited twice the order of the visits does not matter to
the components: every one of them answers from the state that it had before
the loop, and `visited` is the family afterwards.
-/

variable {ι S A B : Type} [DecidableEq ι]

/-- Ask the components in `is` in turn.  `ask` is the answer of a component
with its new state, and `collect` takes the answer in. -/
def visit (ask : ι → S → A × S) (collect : B → ι → A → B) (is : List ι) (b : B)
    (s : ι → S) : B × (ι → S) :=
  is.foldl
    (fun state i =>
      let (answer, component) := ask i (state.2 i)
      (collect state.1 i answer, Function.update state.2 i component))
    (b, s)

/-- The family after all components in `is` were asked. -/
def visited (ask : ι → S → A × S) (is : List ι) (s : ι → S) : ι → S := fun i =>
  if i ∈ is then (ask i (s i)).2 else s i

section

variable {ask : ι → S → A × S} {collect : B → ι → A → B} {is : List ι} {b : B} {s : ι → S}
  {i : ι}

theorem visited_of_mem (h : i ∈ is) : visited ask is s i = (ask i (s i)).2 := if_pos h

theorem visited_of_notMem (h : i ∉ is) : visited ask is s i = s i := if_neg h

/-- A component is as before, or as it was left when it was asked. -/
theorem visited_cases : visited ask is s i = s i ∨
    (i ∈ is ∧ visited ask is s i = (ask i (s i)).2) := by
  by_cases h : i ∈ is
  · exact Or.inr ⟨h, visited_of_mem h⟩
  · exact Or.inl (visited_of_notMem h)

/-- A loop over distinct components collects what they would have answered at
its start. -/
theorem visit_eq (hnodup : is.Nodup) :
    visit ask collect is b s =
      (is.foldl (fun b i => collect b i (ask i (s i)).1) b, visited ask is s) := by
  induction is generalizing b s with
  | nil =>
    have hsame : visited ask [] s = s := funext fun i => visited_of_notMem List.not_mem_nil
    rw [hsame]
    rfl
  | cons head rest ih =>
    rw [List.nodup_cons] at hnodup
    -- the rest of the loop does not come back to the head
    have hrest : ∀ i ∈ rest, Function.update s head (ask head (s head)).2 i = s i :=
      fun i hi => Function.update_of_ne (fun heq : i = head => hnodup.1 (heq ▸ hi)) ..
    have hvisited : visited ask rest (Function.update s head (ask head (s head)).2) =
        visited ask (head :: rest) s := by
      funext i
      by_cases hi : i ∈ rest
      · rw [visited_of_mem hi, visited_of_mem (List.mem_cons_of_mem _ hi), hrest i hi]
      · rw [visited_of_notMem hi]
        by_cases hhead : i = head
        · subst hhead
          rw [Function.update_self, visited_of_mem List.mem_cons_self]
        · rw [Function.update_of_ne hhead, visited_of_notMem]
          simp [hi, hhead]
    have hfold : ∀ b, rest.foldl (fun b i =>
        collect b i (ask i (Function.update s head (ask head (s head)).2 i)).1) b =
        rest.foldl (fun b i => collect b i (ask i (s i)).1) b :=
      fun b => List.foldl_ext _ _ b fun b i hi => by rw [hrest i hi]
    show visit ask collect rest (collect b head (ask head (s head)).1)
      (Function.update s head (ask head (s head)).2) = _
    rw [ih hnodup.2, hvisited, hfold, List.foldl_cons]

end
