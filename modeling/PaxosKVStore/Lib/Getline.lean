import Mathlib.Data.List.Basic
import Mathlib.Data.List.TakeWhile

/-!
# Reading a stream up to a delimiter

`getline` takes what stands before the next delimiter out of a stream, and the
delimiter with it.  A read that comes to the end of the stream succeeds if it
took anything, and no read succeeds after it.  A delimiter at the very end
therefore closes a field and does not open another one.

`fields` is the loop that reads until a read fails.  `Splits` is the language
that it takes apart, and `fields_eq_iff` says that it is exactly this one.
-/

variable {α : Type}

/-- The fields of a list, each without a delimiter, and each but the last one
with a delimiter after it.  The last one may have it, and if it is empty it
must. -/
inductive Splits (delim : α) : List α → List (List α) → Prop where
  | nil : Splits delim [] []
  | last {field : List α} (hfield : delim ∉ field) (hne : field ≠ []) :
      Splits delim field [field]
  | cons {field rest : List α} {others : List (List α)} (hfield : delim ∉ field)
      (hrest : Splits delim rest others) :
      Splits delim (field ++ delim :: rest) (field :: others)

section

variable {delim : α} {field : List α}

/-- One field. -/
theorem splits_singleton {s : List α} : Splits delim s [field] ↔
    delim ∉ field ∧ ((s = field ∧ field ≠ []) ∨ s = field ++ [delim]) := by
  constructor
  · intro h
    cases h with
    | last hfield hne => exact ⟨hfield, Or.inl ⟨rfl, hne⟩⟩
    | cons hfield hrest =>
      cases hrest
      exact ⟨hfield, Or.inr rfl⟩
  · rintro ⟨hfield, ⟨rfl, hne⟩ | rfl⟩
    · exact .last hfield hne
    · exact .cons hfield .nil

/-- More than one field. -/
theorem splits_cons_cons {s next : List α} {others : List (List α)} :
    Splits delim s (field :: next :: others) ↔
      delim ∉ field ∧ ∃ rest, s = field ++ delim :: rest ∧
        Splits delim rest (next :: others) := by
  constructor
  · intro h
    cases h with
    | cons hfield hrest => exact ⟨hfield, _, rfl, hrest⟩
  · rintro ⟨hfield, rest, rfl, hrest⟩
    exact .cons hfield hrest

end

/-- What is left of a stream, and whether a read has come to its end. -/
structure InputStream (α : Type) where
  rest : List α
  eof : Bool := false

variable [DecidableEq α]

/-- One read.  It fails when it takes nothing. -/
def getline (delim : α) (stream : InputStream α) : Option (List α × InputStream α) :=
  if stream.eof = true ∨ stream.rest = [] then none
  else
    let field := stream.rest.takeWhile (· ≠ delim)
    match stream.rest.dropWhile (· ≠ delim) with
    | [] => some (field, { rest := [], eof := true })
    | _ :: rest => some (field, { rest := rest })

/-- A read that succeeds leaves less. -/
theorem getline_length {delim : α} {stream stream' : InputStream α} {field : List α}
    (h : getline delim stream = some (field, stream')) :
    stream'.rest.length < stream.rest.length := by
  unfold getline at h
  split at h
  · cases h
  · rename_i hnot
    have hdrop := (List.dropWhile_sublist (l := stream.rest) (· ≠ delim)).length_le
    split at h
    · cases h
      exact List.length_pos_of_ne_nil fun hnil => hnot (Or.inr hnil)
    · rename_i rest heq
      cases h
      rw [heq, List.length_cons] at hdrop
      exact hdrop

/-- The fields that are read until a read fails. -/
def fields (delim : α) (stream : InputStream α) : List (List α) :=
  match h : getline delim stream with
  | none => []
  | some (field, stream') =>
      have := getline_length h
      field :: fields delim stream'
termination_by stream.rest.length

section

variable {delim : α} {field rest : List α}

theorem pos_of_notMem (h : delim ∉ field) : ∀ a ∈ field, decide (a ≠ delim) = true :=
  fun _ ha => decide_eq_true fun heq => h (heq ▸ ha)

theorem fields_of_none {stream : InputStream α} (h : getline delim stream = none) :
    fields delim stream = [] := by
  rw [fields]
  split
  · rfl
  · rename_i h'
    rw [h] at h'
    cases h'

theorem fields_of_some {stream stream' : InputStream α}
    (h : getline delim stream = some (field, stream')) :
    fields delim stream = field :: fields delim stream' := by
  rw [fields]
  split
  · rename_i h'
    rw [h] at h'
    cases h'
  · rename_i h'
    rw [h] at h'
    cases h'
    rfl

theorem fields_nil (eof : Bool) : fields delim { rest := [], eof := eof } = [] :=
  fields_of_none (if_pos (Or.inr rfl))

/-- The last read takes what no delimiter closes. -/
theorem fields_last (hfield : delim ∉ field) (hne : field ≠ []) :
    fields delim { rest := field } = [field] := by
  have hread : getline delim { rest := field } =
      some (field, { rest := [], eof := true }) := by
    have htake := List.takeWhile_eq_self_iff.mpr (pos_of_notMem hfield)
    have hdrop := List.dropWhile_eq_nil_iff.mpr (pos_of_notMem hfield)
    simp only [getline, hne, or_false, Bool.false_eq_true, if_false, htake, hdrop]
  rw [fields_of_some hread, fields_nil]

/-- A read takes what the next delimiter closes. -/
theorem fields_cons (hfield : delim ∉ field) :
    fields delim { rest := field ++ delim :: rest } =
      field :: fields delim { rest := rest } := by
  have hread : getline delim { rest := field ++ delim :: rest } =
      some (field, { rest := rest }) := by
    have hne : field ++ delim :: rest ≠ [] := by simp
    have htake : (field ++ delim :: rest).takeWhile (· ≠ delim) = field := by
      rw [List.takeWhile_append_of_pos (pos_of_notMem hfield),
        List.takeWhile_cons_of_neg (by simp), List.append_nil]
    have hdrop : (field ++ delim :: rest).dropWhile (· ≠ delim) = delim :: rest := by
      rw [List.dropWhile_append_of_pos (pos_of_notMem hfield),
        List.dropWhile_cons_of_neg (by simp)]
    simp only [getline, hne, or_false, Bool.false_eq_true, if_false, htake, hdrop]
  exact fields_of_some hread

theorem fields_of_splits {s : List α} {words : List (List α)} (h : Splits delim s words) :
    fields delim { rest := s } = words := by
  induction h with
  | nil => exact fields_nil _
  | last hfield hne => exact fields_last hfield hne
  | cons hfield hrest ih => rw [fields_cons hfield, ih]

/-- Every list is taken apart. -/
theorem splits_fields (s : List α) : Splits delim s (fields delim { rest := s }) := by
  induction hlength : s.length using Nat.strongRecOn generalizing s with
  | _ n ih =>
    by_cases hmem : delim ∈ s
    · obtain ⟨field, rest, rfl, hfield⟩ := List.eq_append_cons_of_mem hmem
      rw [fields_cons hfield]
      refine .cons hfield (ih rest.length ?_ rest rfl)
      rw [← hlength, List.length_append, List.length_cons]
      omega
    · by_cases hnil : s = []
      · subst hnil
        rw [fields_nil]
        exact .nil
      · rw [fields_last hmem hnil]
        exact .last hmem hnil

/-- The loop finds exactly the fields of the list. -/
theorem fields_eq_iff {s : List α} {words : List (List α)} :
    fields delim { rest := s } = words ↔ Splits delim s words := by
  constructor
  · rintro rfl
    exact splits_fields s
  · exact fields_of_splits

end
