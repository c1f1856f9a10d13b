import Mathlib.Data.List.Basic

/-!
# Numbers that are handed out without gaps

Numbers are handed out one after the other.  The next one is one above 0 or
above some number that was handed out before, not always above the highest of
them, so a number can be handed out twice.  What is never left is a gap:
the numbers are 1 to some `M`, and there are not fewer hand-outs than that.
-/

/-- The list covers the numbers from 1 to some `M`, and has no other entry. -/
def Contiguous (l : List Int) : Prop :=
  ∃ M : Nat, M ≤ l.length ∧ ∀ r, r ∈ l ↔ 1 ≤ r ∧ r ≤ M

namespace Contiguous

variable {l : List Int} {r : Int}

theorem nil : Contiguous [] := by
  refine ⟨0, Nat.le_refl 0, fun r => ?_⟩
  constructor
  · intro hr
    cases hr
  · rintro ⟨hpos, hle⟩
    omega

/-- The next number leaves no gap. -/
theorem snoc (h : Contiguous l) (hr : r = 0 ∨ r ∈ l) : Contiguous (l ++ [r + 1]) := by
  obtain ⟨M, hlength, hmem⟩ := h
  have hbounds : 0 ≤ r ∧ r ≤ M := by
    rcases hr with rfl | hr
    · omega
    · have := (hmem r).mp hr
      omega
  refine ⟨max M (r + 1).toNat, ?_, fun r' => ?_⟩
  · rw [List.length_append, List.length_singleton]
    omega
  · rw [List.mem_append, List.mem_singleton, hmem]
    omega

theorem bounds (h : Contiguous l) (hr : r ∈ l) : 1 ≤ r ∧ r ≤ l.length := by
  obtain ⟨M, hlength, hmem⟩ := h
  have := (hmem r).mp hr
  omega

end Contiguous
