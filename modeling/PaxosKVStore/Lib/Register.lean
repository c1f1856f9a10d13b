import Mathlib.Data.Finset.Max
import Mathlib.Data.Set.Insert

/-!
# Registers that keep their latest write

A write carries a stamp.  It takes effect unless a later stamp has been seen,
and its stamp counts as seen in either case.

`value_writes` says what a sequence of writes leaves: the value of the latest
of them, or the old value where a still later stamp had been seen before.
Writes that agree whenever their stamps are equal can therefore be repeated
and taken in any order, which is `value_writes_congr`.
-/

/-- A value, with the stamps that were seen. -/
structure Register (τ ν : Type) where
  stamps : Set τ
  value : ν

namespace Register

variable {τ ν : Type} [LinearOrder τ]

/-- A stamp after `t` was seen. -/
def Overtaken (r : Register τ ν) (t : τ) : Prop := ∃ u ∈ r.stamps, t < u

open Classical in
/-- A write takes effect unless it is overtaken. -/
noncomputable def write (r : Register τ ν) (w : τ × ν) : Register τ ν where
  stamps := insert w.1 r.stamps
  value := if r.Overtaken w.1 then r.value else w.2

/-- The writes of a list, one after the other. -/
noncomputable def writes (r : Register τ ν) (ws : List (τ × ν)) : Register τ ν :=
  ws.foldl write r

variable {r : Register τ ν} {w : τ × ν} {ws ws' : List (τ × ν)} {t : τ}

theorem value_write_of_overtaken (h : r.Overtaken w.1) : (r.write w).value = r.value := if_pos h

theorem value_write (h : ¬ r.Overtaken w.1) : (r.write w).value = w.2 := if_neg h

theorem writes_snoc : r.writes (ws ++ [w]) = (r.writes ws).write w := List.foldl_concat ..

/-- The stamps that were seen before, and those of the writes. -/
theorem mem_stamps_writes : t ∈ (r.writes ws).stamps ↔ t ∈ r.stamps ∨ ∃ w ∈ ws, w.1 = t := by
  induction ws using List.reverseRecOn with
  | nil => simp [writes]
  | append_singleton ws w ih =>
    rw [writes_snoc, write, Set.mem_insert_iff, ih]
    simp only [List.mem_append, List.mem_singleton, or_and_right, exists_or, exists_eq_left]
    rw [eq_comm]
    exact or_rotate

/-- Writes that are overtaken from the start leave the value alone. -/
theorem value_writes_of_overtaken (h : ∀ w ∈ ws, r.Overtaken w.1) :
    (r.writes ws).value = r.value := by
  induction ws using List.reverseRecOn with
  | nil => rfl
  | append_singleton ws w ih =>
    obtain ⟨u, hu, hlt⟩ := h w (by simp)
    have hover : (r.writes ws).Overtaken w.1 := ⟨u, mem_stamps_writes.mpr (Or.inl hu), hlt⟩
    rw [writes_snoc, value_write_of_overtaken hover]
    exact ih fun w hw => h w (List.mem_append_left _ hw)

/-- The latest write stays, if no later stamp had been seen before. -/
theorem value_writes (hw : w ∈ ws) (hlast : ∀ w' ∈ ws, w'.1 ≤ w.1)
    (hsame : ∀ w' ∈ ws, w'.1 = w.1 → w'.2 = w.2) (hlate : ¬ r.Overtaken w.1) :
    (r.writes ws).value = w.2 := by
  induction ws using List.reverseRecOn with
  | nil => cases hw
  | append_singleton ws last ih =>
    have hle : last.1 ≤ w.1 := hlast last (by simp)
    rw [writes_snoc]
    rcases hle.eq_or_lt with heq | hlt
    · have hfree : ¬ (r.writes ws).Overtaken last.1 := by
        rintro ⟨u, hu, hlt⟩
        rw [heq] at hlt
        rcases mem_stamps_writes.mp hu with hu | ⟨w', hw', rfl⟩
        · exact hlate ⟨u, hu, hlt⟩
        · exact absurd (hlast w' (List.mem_append_left _ hw')) (not_le.mpr hlt)
      rw [value_write hfree]
      exact hsame last (by simp) heq
    · have hw' : w ∈ ws := by
        rcases List.mem_append.mp hw with hw | hw
        · exact hw
        · rw [List.mem_singleton.mp hw] at hlt
          exact absurd hlt (lt_irrefl _)
      have hover : (r.writes ws).Overtaken last.1 :=
        ⟨w.1, mem_stamps_writes.mpr (Or.inr ⟨w, hw', rfl⟩), hlt⟩
      rw [value_write_of_overtaken hover]
      exact ih hw' (fun w' h => hlast w' (List.mem_append_left _ h))
        (fun w' h => hsame w' (List.mem_append_left _ h))

/-- Among some writes there is a latest one. -/
theorem exists_latest (h : ws ≠ []) : ∃ w ∈ ws, ∀ w' ∈ ws, w'.1 ≤ w.1 := by
  classical
  obtain ⟨w, hw, hlast⟩ := ws.toFinset.exists_max_image Prod.fst
    (List.toFinset_nonempty_iff ws |>.mpr h)
  exact ⟨w, List.mem_toFinset.mp hw, fun w' hw' => hlast w' (List.mem_toFinset.mpr hw')⟩

/-- Neither the order nor the repetition of the writes matters, if writes with
one stamp agree. -/
theorem value_writes_congr (hmem : ∀ w, w ∈ ws ↔ w ∈ ws')
    (hsame : ∀ w ∈ ws, ∀ w' ∈ ws, w'.1 = w.1 → w'.2 = w.2) :
    (r.writes ws).value = (r.writes ws').value := by
  by_cases hnil : ws = []
  · obtain rfl : ws' = [] := by
      rw [List.eq_nil_iff_forall_not_mem]
      intro w hw
      simpa [hnil] using (hmem w).mpr hw
    rw [hnil]
  · obtain ⟨w, hw, hlast⟩ := exists_latest hnil
    by_cases hover : r.Overtaken w.1
    · obtain ⟨u, hu, hlt⟩ := hover
      have hall : ∀ w' ∈ ws, r.Overtaken w'.1 :=
        fun w' hw' => ⟨u, hu, (hlast w' hw').trans_lt hlt⟩
      rw [value_writes_of_overtaken hall,
        value_writes_of_overtaken fun w' hw' => hall w' ((hmem w').mpr hw')]
    · rw [value_writes hw hlast (hsame w hw) hover]
      exact (value_writes ((hmem w).mp hw) (fun w' hw' => hlast w' ((hmem w').mpr hw'))
        (fun w' hw' => hsame w hw w' ((hmem w').mpr hw')) hover).symm

end Register
