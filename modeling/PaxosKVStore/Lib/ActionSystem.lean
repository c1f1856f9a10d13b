import Mathlib.Logic.Basic
import Mathlib.Data.List.Basic

/-!
# Transition systems with named actions

An `ActionSystem` has a set of initial states and a partial step function
that an action drives.  The action carries every choice of the environment,
so a step is a function and a run can be evaluated.

A run is usually looked at under a condition on its steps, such as "no call
is lost".  `Reachable C` is the set of states of the runs all of whose steps
meet `C`; with `C` true everywhere it is plain reachability.

* `Reachable.invariant` is the induction over a run.  The step case may use
  that the state before the step is reachable, so invariants can be proved
  one after the other.
* `execWhere` evaluates a list of actions and checks the condition on the
  way, and `reachable_of_execWhere` makes a reachable state of its result.

Nothing here names a particular system.
-/

/-- Initial states and a step function whose choices are in the action. -/
structure ActionSystem (State Action : Type) where
  isInitial : State → Prop
  step : State → Action → Option State

namespace ActionSystem

variable {State Action : Type} (T : ActionSystem State Action)

/-- The states of the runs all of whose steps meet `C`. -/
inductive Reachable (C : State → Action → Prop) : State → Prop where
  | start {s : State} (hinit : T.isInitial s) : Reachable C s
  | next {s s' : State} {act : Action} (hreach : Reachable C s) (hcond : C s act)
      (hstep : T.step s act = some s') : Reachable C s'

variable {T} {C D : State → Action → Prop} {s : State}

/-- An invariant of the runs under `C`: it holds initially, and a step that
meets `C` from a reachable state keeps it. -/
theorem Reachable.invariant {I : State → Prop}
    (hinit : ∀ s, T.isInitial s → I s)
    (hstep : ∀ s act s', T.Reachable C s → C s act → T.step s act = some s' → I s → I s')
    (h : T.Reachable C s) : I s := by
  induction h with
  | start h0 => exact hinit _ h0
  | next hreach hcond hs ih => exact hstep _ _ _ hreach hcond hs ih

/-- Fewer conditions on the steps reach more states. -/
theorem Reachable.mono (hCD : ∀ s act, C s act → D s act) (h : T.Reachable C s) :
    T.Reachable D s := by
  induction h with
  | start h0 => exact .start h0
  | next _ hcond hs ih => exact .next ih (hCD _ _ hcond) hs

/-- The same steps, all starting in one state. -/
def startingAt (T : ActionSystem State Action) (s : State) : ActionSystem State Action where
  isInitial s' := s' = s
  step := T.step

/-- What follows a reachable state is reachable. -/
theorem Reachable.of_startingAt {s' : State} (h : T.Reachable C s)
    (h' : (T.startingAt s).Reachable D s') : T.Reachable (fun _ _ => True) s' := by
  induction h' with
  | start h0 => exact h0 ▸ h.mono fun _ _ _ => trivial
  | next _ _ hs ih => exact ih.next trivial hs

section Evaluation

variable (T C) [∀ s act, Decidable (C s act)]

/-- Take the actions in order, and stop where one is disabled or does not
meet the condition. -/
def execWhere : State → List Action → Option State
  | s, [] => some s
  | s, act :: rest =>
      if C s act then
        match T.step s act with
        | some s' => execWhere s' rest
        | none => none
      else none

variable {T C}

/-- The result of an evaluated run is reachable under its condition. -/
theorem Reachable.of_execWhere {acts : List Action} {s' : State}
    (hreach : T.Reachable C s) (hexec : T.execWhere C s acts = some s') :
    T.Reachable C s' := by
  induction acts generalizing s with
  | nil =>
    rw [execWhere] at hexec
    cases hexec
    exact hreach
  | cons act rest ih =>
    rw [execWhere] at hexec
    split at hexec
    · rename_i hcond
      split at hexec
      · rename_i s1 hstep
        exact ih (.next hreach hcond hstep) hexec
      · cases hexec
    · cases hexec

/-- What all actions of the list meet need not be checked on the way. -/
theorem Reachable.of_execWhere_forall {E : Action → Prop} {acts : List Action} {s' : State}
    (hreach : T.Reachable (fun s act => C s act ∧ E act) s) (hacts : ∀ act ∈ acts, E act)
    (hexec : T.execWhere C s acts = some s') :
    T.Reachable (fun s act => C s act ∧ E act) s' := by
  induction acts generalizing s with
  | nil =>
    rw [execWhere] at hexec
    cases hexec
    exact hreach
  | cons act rest ih =>
    rw [List.forall_mem_cons] at hacts
    rw [execWhere] at hexec
    split at hexec
    · rename_i hcond
      split at hexec
      · rename_i s1 hstep
        exact ih (.next hreach ⟨hcond, hacts.1⟩ hstep) hacts.2 hexec
      · cases hexec
    · cases hexec

/-- A property that the evaluation finds true at the end of a run holds in a
reachable state. -/
theorem exists_reachable_of_execWhere {acts : List Action} {P : State → Prop}
    (hinit : T.isInitial s) (h : ∃ s' ∈ T.execWhere C s acts, P s') :
    ∃ s', T.Reachable C s' ∧ P s' := by
  obtain ⟨s', hexec, hP⟩ := h
  exact ⟨s', .of_execWhere (.start hinit) hexec, hP⟩

end Evaluation

end ActionSystem
