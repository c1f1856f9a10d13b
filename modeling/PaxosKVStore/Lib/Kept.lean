import Mathlib.Data.List.Basic

/-!
# The kept entries of a list

A list is looked at through a function that drops some of its entries and
maps the others, as `filterMap` does.  `rank` is the position that an entry
gets in the result, so that changing or removing an entry of the list can be
followed in the result, and a step of a larger system in a smaller one.
-/

namespace Kept

variable {α β : Type} {f : α → Option β} {l : List α} {i : Nat} {x x' : α} {y y' : β}

/-- How many entries before position `i` are kept. -/
def rank (f : α → Option β) (l : List α) (i : Nat) : Nat := ((l.take i).filterMap f).length

/-- A list, split at one of its entries. -/
theorem eq_append_of_getElem? (h : l[i]? = some x) : l = l.take i ++ x :: l.drop (i + 1) := by
  obtain ⟨hlt, rfl⟩ := List.getElem?_eq_some_iff.mp h
  rw [List.getElem_cons_drop, List.take_append_drop]

theorem filterMap_eq_append (h : l[i]? = some x) (hx : f x = some y) :
    l.filterMap f = (l.take i).filterMap f ++ y :: (l.drop (i + 1)).filterMap f := by
  conv_lhs => rw [eq_append_of_getElem? h]
  rw [List.filterMap_append, List.filterMap_cons_some hx]

theorem filterMap_eq_append_of_none (h : l[i]? = some x) (hx : f x = none) :
    l.filterMap f = (l.take i).filterMap f ++ (l.drop (i + 1)).filterMap f := by
  conv_lhs => rw [eq_append_of_getElem? h]
  rw [List.filterMap_append, List.filterMap_cons_none hx]

/-- A kept entry stands at its rank. -/
theorem getElem?_filterMap (h : l[i]? = some x) (hx : f x = some y) :
    (l.filterMap f)[rank f l i]? = some y := by
  rw [filterMap_eq_append h hx, rank, List.getElem?_append_right (Nat.le_refl _), Nat.sub_self]
  rfl

theorem set_eq_append (h : l[i]? = some x) : l.set i x' = l.take i ++ x' :: l.drop (i + 1) := by
  obtain ⟨hlt, _⟩ := List.getElem?_eq_some_iff.mp h
  rw [List.set_eq_take_append_cons_drop, if_pos hlt]

/-- Changing a kept entry. -/
theorem filterMap_set (h : l[i]? = some x) (hx : f x = some y) (hx' : f x' = some y') :
    (l.set i x').filterMap f = (l.filterMap f).set (rank f l i) y' := by
  rw [filterMap_eq_append h hx, set_eq_append h, List.filterMap_append,
    List.filterMap_cons_some hx', rank, List.set_append_right _ _ (Nat.le_refl _), Nat.sub_self]
  rfl

/-- Changing an entry that is dropped. -/
theorem filterMap_set_of_none (h : l[i]? = some x) (hx : f x = none) (hx' : f x' = none) :
    (l.set i x').filterMap f = l.filterMap f := by
  rw [filterMap_eq_append_of_none h hx, set_eq_append h, List.filterMap_append,
    List.filterMap_cons_none hx']

/-- Removing a kept entry. -/
theorem filterMap_eraseIdx (h : l[i]? = some x) (hx : f x = some y) :
    (l.eraseIdx i).filterMap f = (l.filterMap f).eraseIdx (rank f l i) := by
  rw [filterMap_eq_append h hx, rank, List.eraseIdx_append_of_length_le (Nat.le_refl _),
    Nat.sub_self, List.eraseIdx_cons_zero, List.eraseIdx_eq_take_drop_succ,
    List.filterMap_append]

/-- Removing an entry that is dropped. -/
theorem filterMap_eraseIdx_of_none (h : l[i]? = some x) (hx : f x = none) :
    (l.eraseIdx i).filterMap f = l.filterMap f := by
  rw [filterMap_eq_append_of_none h hx, List.eraseIdx_eq_take_drop_succ, List.filterMap_append]

/-- Changing an entry without dropping or keeping more moves no other one. -/
theorem rank_set (h : l[i]? = some x) (hsame : (f x).isSome = (f x').isSome) (j : Nat) :
    rank f (l.set i x') j = rank f l j := by
  rw [rank, rank, List.take_set]
  by_cases hij : i < j
  · have htake : (l.take j)[i]? = some x := by rw [List.getElem?_take_of_lt hij, h]
    cases hx : f x with
    | none =>
      have hx' : f x' = none := by simpa [hx] using hsame.symm
      rw [filterMap_set_of_none htake hx hx']
    | some y =>
      obtain ⟨y', hx'⟩ : ∃ y', f x' = some y' := by
        rw [← Option.isSome_iff_exists, ← hsame, hx]
        rfl
      rw [filterMap_set htake hx hx', List.length_set]
  · rw [List.set_eq_of_length_le]
    rw [List.length_take]
    omega

/-- Appending an entry moves no other one. -/
theorem rank_append (h : i ≤ l.length) : rank f (l ++ [x]) i = rank f l i := by
  rw [rank, rank, List.take_append_of_le_length h]

end Kept
