import Mathlib.Data.Finmap
import Mathlib.Data.List.Sort

/-!
# Visiting the entries of a finite map

`entries` lists the entries of a map by key, so that a loop over a map is a
fold over a list.  A loop that writes the entries of one map into another
does not depend on this order, as long as it writes each entry as it is;
`mem_entries` is all that a proof about such a loop needs.
-/

variable {κ ν : Type} [LinearOrder κ]

/-- The elements of a finite set in increasing order. -/
def inOrder (s : Finset κ) : List κ :=
  Quot.liftOn s.val (List.insertionSort (· ≤ ·)) fun l l' h =>
    List.Perm.eq_of_sortedLE List.sortedLE_insertionSort List.sortedLE_insertionSort
      ((List.perm_insertionSort _ l).trans (h.trans (List.perm_insertionSort _ l').symm))

theorem mem_inOrder {s : Finset κ} {a : κ} : a ∈ inOrder s ↔ a ∈ s := by
  obtain ⟨val, hnodup⟩ := s
  induction val using Quot.ind with
  | mk l => exact List.mem_insertionSort _

/-- The entries of a map, by key. -/
def entries (m : Finmap fun _ : κ => ν) : List (κ × ν) :=
  (inOrder m.keys).filterMap fun key => (m.lookup key).map fun value => (key, value)

theorem mem_entries {m : Finmap fun _ : κ => ν} {key : κ} {value : ν} :
    (key, value) ∈ entries m ↔ m.lookup key = some value := by
  rw [entries, List.mem_filterMap]
  constructor
  · rintro ⟨key', _, h⟩
    obtain ⟨value', hlookup, heq⟩ := Option.map_eq_some_iff.mp h
    cases heq
    exact hlookup
  · intro h
    refine ⟨key, mem_inOrder.mpr (Finmap.mem_keys.mpr ?_), by rw [h]; rfl⟩
    exact Finmap.mem_iff.mpr ⟨value, h⟩
