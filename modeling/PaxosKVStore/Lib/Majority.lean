import Mathlib.Data.Finset.Card
import Mathlib.Data.Finset.Lattice.Basic

/-!
# Majorities of lists without repetitions

A quorum is collected by walking a list of members and keeping some of them,
so it is a sublist.  It is a majority when it has more than half of the
members, with the half rounded down as integer division does.

Two majorities of one list share a member.  Majorities of two different
lists share one as soon as the two bounds together exceed the size of the
union.
-/

namespace Majority

variable {α : Type}

/-- `quorum` is picked from `members` and has more than half of them. -/
structure IsMajority (quorum members : List α) : Prop where
  sublist : quorum.Sublist members
  half_lt : members.length / 2 < quorum.length

/-- A majority has a member. -/
theorem IsMajority.exists_mem {quorum members : List α} (h : IsMajority quorum members) :
    ∃ a, a ∈ quorum := by
  have hpos : 0 < quorum.length := lt_of_le_of_lt (Nat.zero_le _) h.half_lt
  exact List.exists_mem_of_length_pos hpos

variable [DecidableEq α]

/-- The members of a majority are counted without repetition. -/
theorem IsMajority.card_toFinset {quorum members : List α} (h : IsMajority quorum members)
    (hnodup : members.Nodup) : quorum.toFinset.card = quorum.length :=
  List.toFinset_card_of_nodup (hnodup.sublist h.sublist)

/-- Majorities of two lists share a member when the two smallest majorities
do not fit side by side in the union. -/
theorem IsMajority.exists_common {q₁ q₂ m₁ m₂ : List α}
    (h₁ : IsMajority q₁ m₁) (h₂ : IsMajority q₂ m₂)
    (hnodup₁ : m₁.Nodup) (hnodup₂ : m₂.Nodup)
    (hunion : (m₁.toFinset ∪ m₂.toFinset).card < m₁.length / 2 + 1 + (m₂.length / 2 + 1)) :
    ∃ a, a ∈ q₁ ∧ a ∈ q₂ := by
  have hsub₁ : q₁.toFinset ⊆ m₁.toFinset ∪ m₂.toFinset := by
    intro a ha
    simp only [Finset.mem_union, List.mem_toFinset] at ha ⊢
    exact Or.inl (h₁.sublist.subset ha)
  have hsub₂ : q₂.toFinset ⊆ m₁.toFinset ∪ m₂.toFinset := by
    intro a ha
    simp only [Finset.mem_union, List.mem_toFinset] at ha ⊢
    exact Or.inr (h₂.sublist.subset ha)
  have hcard : (m₁.toFinset ∪ m₂.toFinset).card < q₁.toFinset.card + q₂.toFinset.card := by
    rw [h₁.card_toFinset hnodup₁, h₂.card_toFinset hnodup₂]
    have := h₁.half_lt
    have := h₂.half_lt
    omega
  obtain ⟨a, ha⟩ := Finset.inter_nonempty_of_card_lt_card_add_card hsub₁ hsub₂ hcard
  simp only [Finset.mem_inter, List.mem_toFinset] at ha
  exact ⟨a, ha⟩

/-- Two majorities of one list share a member. -/
theorem IsMajority.exists_common_of_same {q₁ q₂ members : List α}
    (h₁ : IsMajority q₁ members) (h₂ : IsMajority q₂ members) (hnodup : members.Nodup) :
    ∃ a, a ∈ q₁ ∧ a ∈ q₂ := by
  refine h₁.exists_common h₂ hnodup hnodup ?_
  rw [Finset.union_self, List.toFinset_card_of_nodup hnodup]
  omega

end Majority
