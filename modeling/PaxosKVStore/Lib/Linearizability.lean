import Mathlib.Data.List.Nodup
import Mathlib.Data.List.Basic

/-!
# Linearizability

A `SequentialObject` performs its operations one at a time.  Clients of a
concurrent one see a history of calls and returns.  The history is
linearizable if its operations, with the results that they returned, can be
put in one order that the sequential object allows and that agrees with real
time: an operation that returned before another one was called comes first.
An operation that has not returned may be in that order or not.

`Points` is the usual way there.  Every operation gets a point between its
call and its return, where the sequential object performs it, and
`Points.linearizes` says that the order of the points is the order asked for.

Histories and orders are lists with the newest entry first.  Nothing here
names a particular object.
-/

namespace Linearizability

variable {State Id Op Res : Type}

/-- An object that performs one operation at a time.  What it allows need not
be a function, so an operation may fail or not. -/
structure SequentialObject (State Op Res : Type) where
  initial : State
  allows : State → Op → Res → State → Prop

/-- What a client sees of its operation. -/
inductive HistoryEvent (Id Op Res : Type) where
  | call (id : Id) (op : Op)
  | ret (id : Id) (res : Res)
  deriving DecidableEq, Repr

def HistoryEvent.id : HistoryEvent Id Op Res → Id
  | .call id _ => id
  | .ret id _ => id

/-- An operation with its result. -/
structure Entry (Id Op Res : Type) where
  id : Id
  op : Op
  res : Res
  deriving DecidableEq, Repr

def Entry.performed (e : Entry Id Op Res) : Op × Res := (e.op, e.res)

/-- The object performs the operations with these results, and ends in `s`. -/
inductive Runs (O : SequentialObject State Op Res) : List (Op × Res) → State → Prop where
  | nil : Runs O [] O.initial
  | cons {performed : List (Op × Res)} {op : Op} {res : Res} {s s' : State}
      (hruns : Runs O performed s) (hallows : O.allows s op res s') :
      Runs O ((op, res) :: performed) s'

/-- `id` returned before `id'` was called. -/
def Precedes (history : List (HistoryEvent Id Op Res)) (id id' : Id) : Prop :=
  ∃ newer older op, history = newer ++ .call id' op :: older ∧ ∃ res, .ret id res ∈ older

/-- The entries are an order of the operations as it is asked for. -/
structure Linearizes (O : SequentialObject State Op Res) (history : List (HistoryEvent Id Op Res))
    (entries : List (Entry Id Op Res)) : Prop where
  legal : ∃ s, Runs O (entries.map Entry.performed) s
  nodup : (entries.map Entry.id).Nodup
  called : ∀ e ∈ entries, .call e.id e.op ∈ history
  returned : ∀ id res, .ret id res ∈ history → ∃ e ∈ entries, e.id = id ∧ e.res = res
  ordered : ∀ e ∈ entries, ∀ e' ∈ entries, Precedes history e.id e'.id →
    [e', e].Sublist entries

def Linearizable (O : SequentialObject State Op Res)
    (history : List (HistoryEvent Id Op Res)) : Prop :=
  ∃ entries, Linearizes O history entries

/-! ## Points -/

/-- The history so far, the operations that have had their point, and the
state of the sequential object after them. -/
inductive Points (O : SequentialObject State Op Res) :
    List (HistoryEvent Id Op Res) → List (Entry Id Op Res) → State → Prop where
  | nil : Points O [] [] O.initial
  | call {history : List (HistoryEvent Id Op Res)} {entries : List (Entry Id Op Res)} {s : State}
      {id : Id} (op : Op) (h : Points O history entries s) (hnew : ∀ op, .call id op ∉ history) :
      Points O (.call id op :: history) entries s
  | point {history : List (HistoryEvent Id Op Res)} {entries : List (Entry Id Op Res)}
      {s s' : State} {id : Id} {op : Op} {res : Res} (h : Points O history entries s)
      (hcalled : .call id op ∈ history) (hpending : ∀ res, .ret id res ∉ history)
      (hnew : ∀ e ∈ entries, e.id ≠ id) (hallows : O.allows s op res s') :
      Points O history ({ id := id, op := op, res := res } :: entries) s'
  | ret {history : List (HistoryEvent Id Op Res)} {entries : List (Entry Id Op Res)} {s : State}
      {e : Entry Id Op Res} (h : Points O history entries s) (hdone : e ∈ entries) :
      Points O (.ret e.id e.res :: history) entries s

variable {O : SequentialObject State Op Res} {history : List (HistoryEvent Id Op Res)}
  {entries : List (Entry Id Op Res)} {s : State} {id id' : Id}

theorem Precedes.of_ret {id₀ : Id} {res : Res}
    (h : Precedes (.ret id₀ res :: history) id id') : Precedes history id id' := by
  obtain ⟨newer, older, op, heq, hreturned⟩ := h
  cases newer with
  | nil => cases heq
  | cons e newer =>
    rw [List.cons_append, List.cons.injEq] at heq
    exact ⟨newer, older, op, heq.2, hreturned⟩

theorem Precedes.of_call {id₀ : Id} {op : Op}
    (h : Precedes (.call id₀ op :: history) id id') : Precedes history id id' ∨ id' = id₀ := by
  obtain ⟨newer, older, op', heq, hreturned⟩ := h
  cases newer with
  | nil =>
    rw [List.nil_append, List.cons.injEq, HistoryEvent.call.injEq] at heq
    exact Or.inr heq.1.1.symm
  | cons e newer =>
    rw [List.cons_append, List.cons.injEq] at heq
    exact Or.inl ⟨newer, older, op', heq.2, hreturned⟩

/-- Only an operation that has returned precedes another one. -/
theorem Precedes.returned (h : Precedes history id id') : ∃ res, .ret id res ∈ history := by
  obtain ⟨newer, older, op, rfl, res, hres⟩ := h
  exact ⟨res, List.mem_append_right _ (List.mem_cons_of_mem _ hres)⟩

/-- The points are a run of the sequential object. -/
theorem Points.runs (h : Points O history entries s) :
    Runs O (entries.map Entry.performed) s := by
  induction h with
  | nil => exact .nil
  | call _ _ _ ih => exact ih
  | point _ _ _ _ hallows ih => exact .cons ih hallows
  | ret _ _ ih => exact ih

/-- A call adds nothing that precedes an operation with a point. -/
theorem Linearizes.call (h : Linearizes O history entries) {id : Id} (op : Op)
    (hnew : ∀ op, .call id op ∉ history) : Linearizes O (.call id op :: history) entries where
  legal := h.legal
  nodup := h.nodup
  called e he := List.mem_cons_of_mem _ (h.called e he)
  returned id' res hres := by
    rcases List.mem_cons.mp hres with heq | hres
    · cases heq
    · exact h.returned id' res hres
  ordered e he e' he' hprecedes := by
    rcases hprecedes.of_call with hprecedes | heq
    · exact h.ordered e he e' he' hprecedes
    · exact absurd (heq ▸ h.called e' he') (hnew _)

/-- An operation that has not returned may come last. -/
theorem Linearizes.point (h : Linearizes O history entries) {e : Entry Id Op Res}
    (hlegal : ∃ s, Runs O ((e :: entries).map Entry.performed) s)
    (hcalled : .call e.id e.op ∈ history)
    (hpending : ∀ res, .ret e.id res ∉ history) (hnew : ∀ e' ∈ entries, e'.id ≠ e.id) :
    Linearizes O history (e :: entries) where
  legal := hlegal
  nodup := by
    rw [List.map_cons, List.nodup_cons]
    refine ⟨fun hmem => ?_, h.nodup⟩
    obtain ⟨e', he', heq⟩ := List.mem_map.mp hmem
    exact hnew e' he' heq
  called := List.forall_mem_cons.mpr ⟨hcalled, h.called⟩
  returned id res hres := by
    obtain ⟨e', he', heq⟩ := h.returned id res hres
    exact ⟨e', List.mem_cons_of_mem _ he', heq⟩
  ordered e₁ he₁ e₂ he₂ hprecedes := by
    rcases List.mem_cons.mp he₁ with rfl | hold₁
    · obtain ⟨res, hres⟩ := hprecedes.returned
      exact absurd hres (hpending res)
    · rcases List.mem_cons.mp he₂ with rfl | hold₂
      · exact (List.singleton_sublist.mpr hold₁).cons_cons _
      · exact (h.ordered e₁ hold₁ e₂ hold₂ hprecedes).cons _

/-- An operation that has its place returns its result. -/
theorem Linearizes.ret (h : Linearizes O history entries) {e : Entry Id Op Res}
    (hdone : e ∈ entries) : Linearizes O (.ret e.id e.res :: history) entries where
  legal := h.legal
  nodup := h.nodup
  called e' he' := List.mem_cons_of_mem _ (h.called e' he')
  returned id res hres := by
    rcases List.mem_cons.mp hres with heq | hres
    · cases heq
      exact ⟨e, hdone, rfl, rfl⟩
    · exact h.returned id res hres
  ordered e₁ he₁ e₂ he₂ hprecedes := h.ordered e₁ he₁ e₂ he₂ hprecedes.of_ret

/-- Only a called operation is in a history that has points. -/
theorem Linearizes.called_of_ret (h : Linearizes O history entries) {res : Res}
    (hres : .ret id res ∈ history) : ∃ op, .call id op ∈ history := by
  obtain ⟨e, he, rfl, _⟩ := h.returned id res hres
  exact ⟨e.op, h.called e he⟩

/-- The order of the points linearizes the history. -/
theorem Points.linearizes (h : Points O history entries s) : Linearizes O history entries := by
  induction h with
  | nil =>
    refine ⟨⟨_, .nil⟩, List.nodup_nil, ?_, ?_, ?_⟩
    · exact fun e he => absurd he List.not_mem_nil
    · exact fun id res hres => absurd hres List.not_mem_nil
    · exact fun e he => absurd he List.not_mem_nil
  | call op _ hnew ih => exact ih.call op hnew
  | point h hcalled hpending hnew hallows ih =>
    exact ih.point ⟨_, .cons h.runs hallows⟩ hcalled hpending hnew
  | ret _ hdone ih => exact ih.ret hdone

end Linearizability
