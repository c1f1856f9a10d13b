import Mathlib.Logic.Relation
import PaxosKVStore.Lib.ActionSystem

/-!
# Runs of a coarse system as runs of a fine one

An action of a coarse system stands for many actions of a fine one.  `Leads`
says that some actions of a kind lead from one state to another, and
`Simulates` that whatever the coarse system does in one step, the fine one does
in some.  Then every state of the coarse system has a counterpart that the fine
one can reach.

Nothing here names a particular system.
-/

namespace ActionSystem

variable {State Action State' Action' : Type}

/-- Some actions that meet `own` lead from one state to the other. -/
def Leads (T : ActionSystem State Action) (own : Action → Prop) : State → State → Prop :=
  Relation.ReflTransGen fun s s' => ∃ act, own act ∧ T.step s act = some s'

variable {T : ActionSystem State Action} {U : ActionSystem State' Action'}
  {own : Action → Prop} {s s' s'' : State}

theorem Leads.refl (s : State) : T.Leads own s s := Relation.ReflTransGen.refl

theorem Leads.of_step {act : Action} (hown : own act) (hstep : T.step s act = some s') :
    T.Leads own s s' :=
  .single ⟨act, hown, hstep⟩

theorem Leads.trans (h : T.Leads own s s') (h' : T.Leads own s' s'') : T.Leads own s s'' :=
  Relation.ReflTransGen.trans h h'

/-- What the actions keep one by one, they keep together. -/
theorem Leads.invariant {I : State → Prop} (h : T.Leads own s s')
    (hstep : ∀ s act s', own act → T.step s act = some s' → I s → I s') (hs : I s) : I s' := by
  induction h with
  | refl => exact hs
  | tail _ hlast ih =>
    obtain ⟨act, hown, hlast⟩ := hlast
    exact hstep _ _ _ hown hlast ih

/-- A reachable state leads to reachable states. -/
theorem Leads.reachable {C : State → Action → Prop} (h : T.Leads own s s')
    (hown : ∀ s act, own act → C s act) (hreach : T.Reachable C s) : T.Reachable C s' :=
  h.invariant (fun _ _ _ hact hstep hs => hs.next (hown _ _ hact) hstep) hreach

/-- The actions of a part are actions of the whole. -/
theorem Leads.lift {own' : Action' → Prop} (f : State → State') (g : Action → Action')
    (hown : ∀ act, own act → own' (g act))
    (hstep : ∀ s act s', own act → T.step s act = some s' → U.step (f s) (g act) = some (f s'))
    (h : T.Leads own s s') : U.Leads own' (f s) (f s') := by
  refine Relation.ReflTransGen.lift f ?_ _ _ h
  rintro a b ⟨act, hact, hab⟩
  exact ⟨g act, hown act hact, hstep a act b hact hab⟩

/-- What `T` does in one step that meets `C`, `U` does in some steps, between
states that `R` relates. -/
structure Simulates (T : ActionSystem State Action) (C : State → Action → Prop)
    (U : ActionSystem State' Action') (R : State → State' → Prop) : Prop where
  initial : ∀ s, T.isInitial s → ∃ u, U.isInitial u ∧ R s u
  step : ∀ s act s' u, T.Reachable C s → C s act → T.step s act = some s' → R s u →
    ∃ u', U.Leads (fun _ => True) u u' ∧ R s' u'

/-- Every run of `T` is a run of `U`. -/
theorem Simulates.exists_reachable {C : State → Action → Prop} {R : State → State' → Prop}
    (h : T.Simulates C U R) (hreach : T.Reachable C s) :
    ∃ u, U.Reachable (fun _ _ => True) u ∧ R s u := by
  induction hreach with
  | start hinit =>
    obtain ⟨u, hu, hrel⟩ := h.initial _ hinit
    exact ⟨u, .start hu, hrel⟩
  | next hreach hcond hstep ih =>
    obtain ⟨u, hu, hrel⟩ := ih
    obtain ⟨u', hleads, hrel'⟩ := h.step _ _ _ _ hreach hcond hstep hrel
    exact ⟨u', hleads.reachable (fun _ _ _ => trivial) hu, hrel'⟩

end ActionSystem
