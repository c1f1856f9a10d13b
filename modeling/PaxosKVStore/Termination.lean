import PaxosKVStore.Delivery
import PaxosKVStore.Lib.Progress

/-!
# Every invocation comes to its end

`RunPaxos` waits for no other invocation.  Between two calls it only works on
its own variables, and a call is over when its answer arrives or it fails.  So
an invocation over `n` replicas returns after at most `4 * (n + 1)` steps of
its own: one for each call of its four loops, and one after each loop.  What
the other invocations do, what becomes of the calls and what fails at random
makes no difference.
-/

namespace PaxosKVStore

namespace Invocation

/-- The steps that the invocation can still take. -/
def remaining (inv : Invocation) : Nat :=
  match inv.phase with
  | .ping todo => todo.length + 1 + 3 * (inv.livePaxosStubs.length + todo.length + 1)
  | .prepare todo => todo.length + 1 + 2 * (inv.livePaxosStubs.length + 1)
  | .propose todo => todo.length + 1 + (inv.livePaxosStubs.length + 1)
  | .inform todo => todo.length + 1
  | .returned _ => 0

variable {inv inv' : Invocation} {addr : Addr} {msg : Message} {answer : Option Reply}

theorem remaining_receives (h : inv.Receives addr msg answer inv') :
    inv'.remaining < inv.remaining := by
  cases h with
  | skip hcall hskip =>
    cases hcall <;> rename_i hphase <;> simp [remaining, hphase, Phase.tail]
    omega
  | live hphase hok =>
    simp only [remaining, hphase, List.length_append, List.length_cons, List.length_nil]
    omega
  | promise hphase hok hlow => simp [remaining, hphase]
  | promiseHigher hphase hok hhigh => simp [remaining, hphase]
  | accept hphase hok => simp [remaining, hphase]

theorem remaining_advances (h : inv.Advances inv') : inv'.remaining < inv.remaining := by
  cases h <;> rename_i hphase <;> simp_all [remaining, finish] <;> omega

/-- Four loops over the configured replicas. -/
theorem remaining_le (hwf : inv.Wf) : inv.remaining ≤ 4 * (inv.paxosStubs.length + 1) := by
  have hlive := hwf.live.length_le
  have hprogress := hwf.progress
  unfold remaining
  cases hphase : inv.phase with
  | ping todo =>
    simp only [Progress, hphase] at hprogress
    obtain ⟨⟨seen, hseen, hsub⟩, _⟩ := hprogress
    have hle := hsub.length_le
    simp only [hseen, List.length_append]
    omega
  | prepare todo =>
    simp only [Progress, hphase] at hprogress
    obtain ⟨_, ⟨seen, hseen, _⟩, _⟩ := hprogress
    have hlen := congrArg List.length hseen
    simp only [List.length_append] at hlen
    simp only
    omega
  | propose todo =>
    simp only [Progress, hphase] at hprogress
    obtain ⟨_, seen, hseen, _⟩ := hprogress
    have hlen := congrArg List.length hseen
    simp only [List.length_append] at hlen
    simp only
    omega
  | inform todo =>
    simp only [Progress, hphase] at hprogress
    obtain ⟨_, _, seen, hseen⟩ := hprogress
    have hlen := congrArg List.length hseen
    simp only [List.length_append] at hlen
    simp only
    omega
  | returned status => simp

/-- An invocation that runs has a call to make, or goes on after a loop. -/
theorem next_of_active (h : inv.Active) : inv.nextCall.isSome ∨ inv.advance.isSome := by
  unfold Active at h
  unfold nextCall advance
  rcases hphase : inv.phase with todo | todo | todo | todo | status
  · cases todo with
    | nil => right; simp only; split <;> rfl
    | cons a todo => exact Or.inl rfl
  · cases todo with
    | nil => right; simp only; split <;> rfl
    | cons a todo => exact Or.inl rfl
  · cases todo with
    | nil => right; simp only; split <;> rfl
    | cons a todo => exact Or.inl rfl
  · cases todo with
    | nil => exact Or.inr rfl
    | cons a todo => exact Or.inl rfl
  · rw [hphase] at h
    exact h.elim

end Invocation

namespace System

variable {σ σ' : System} {i : Nat} {inv : Invocation} {act : Action}

/-- The action is a step of the invocation. -/
def OwnStep (i : Nat) : Action → Prop
  | .call run _ _ => run = i
  | .advance run => run = i
  | _ => False

instance (i : Nat) : DecidablePred (OwnStep i) := fun act =>
  match act with
  | .call run _ _ => inferInstanceAs (Decidable (run = i))
  | .advance run => inferInstanceAs (Decidable (run = i))
  | .start .. => isFalse id
  | .arrive .. => isFalse id

/-- The invocation has returned. -/
def HasReturned (i : Nat) (σ : System) : Prop :=
  ∃ inv ∈ σ.runs[i]?, ¬ inv.Active

/-- There is such an invocation, and all of them are well formed. -/
def Started (i : Nat) (σ : System) : Prop :=
  WfRuns σ ∧ ∃ inv, σ.runs[i]? = some inv

/-- The steps that the invocation can still take. -/
def remaining (i : Nat) (σ : System) : Nat :=
  (σ.runs[i]?).elim 0 Invocation.remaining

theorem remaining_of_some (h : σ.runs[i]? = some inv) : σ.remaining i = inv.remaining := by
  rw [remaining, h]
  rfl

theorem started_step (h : Started i σ) (hstep : StepCases σ act σ') : Started i σ' := by
  obtain ⟨hwf, inv, hrun⟩ := h
  obtain ⟨inv', hrun', _⟩ := step_continues hwf hstep i inv hrun
  exact ⟨step_wfRuns hwf hstep, inv', hrun'⟩

theorem remaining_own (hown : OwnStep i act) (hstep : StepCases σ act σ') :
    σ'.remaining i < σ.remaining i := by
  cases hstep with
  | refuse hrefusal => exact hown.elim
  | enter hrefusal => exact hown.elim
  | arrive context randomFail hindex => exact hown.elim
  | @call run inv receiver msg fate randomFail hrun hcall =>
    obtain rfl : run = i := hown
    have hreceives := Invocation.receives_of_calls hcall
      (σ.callAnswer_answers receiver msg randomFail fate)
    rw [remaining_of_some hrun, remaining, call_runs, getElem?_set_self' hrun]
    exact Invocation.remaining_receives hreceives
  | @advance run inv inv' hrun hadvance =>
    obtain rfl : run = i := hown
    rw [remaining_of_some hrun, remaining, noteReturn_runs, setRun, getElem?_set_self' hrun]
    exact Invocation.remaining_advances hadvance

/-- The steps of the others leave its variables. -/
theorem getElem?_other (hrun : σ.runs[i]? = some inv) (hown : ¬ OwnStep i act)
    (hstep : StepCases σ act σ') : σ'.runs[i]? = some inv := by
  cases hstep with
  | refuse hrefusal => exact hrun
  | enter hrefusal => exact getElem?_snoc_of_some hrun
  | arrive context randomFail hindex => exact hrun
  | @call run inv' receiver msg fate randomFail hrun' hcall =>
    rw [call_runs, List.getElem?_set_ne hown, hrun]
  | @advance run inv' inv'' hrun' hadvance =>
    rw [noteReturn_runs, setRun, List.getElem?_set_ne hown, hrun]

theorem measured (setup : System → Prop) (i : Nat) :
    (paxos setup).Measured (Started i) (OwnStep i) (remaining i) where
  keeps _ _ _ h hstep := started_step h (step_cases hstep)
  own_lt _ _ _ _ hown hstep := remaining_own hown (step_cases hstep)
  other_le _ _ _ h hown hstep := by
    obtain ⟨_, inv, hrun⟩ := h
    rw [remaining_of_some hrun, remaining_of_some (getElem?_other hrun hown (step_cases hstep))]

/-- A running invocation can take a step, whatever becomes of its call. -/
theorem enabled_of_active (hrun : σ.runs[i]? = some inv) (h : inv.Active) :
    (∀ fate randomFail, (σ.step (.call i fate randomFail)).isSome) ∨
      (σ.step (.advance i)).isSome := by
  rcases inv.next_of_active h with hcall | hadvance
  · refine Or.inl fun fate randomFail => ?_
    obtain ⟨⟨receiver, msg⟩, hcall⟩ := Option.isSome_iff_exists.mp hcall
    simp only [step, hrun, hcall]
    rfl
  · refine Or.inr ?_
    obtain ⟨inv', hadvance⟩ := Option.isSome_iff_exists.mp hadvance
    simp only [step, hrun, hadvance]
    rfl

/-- In every run, an invocation takes at most `4 * (n + 1)` steps of its own,
and until it has returned its next step waits for nobody. -/
theorem waitFree {setup : System → Prop} {C : System → Action → Prop}
    (h : (paxos setup).Reachable C σ) (hrun : σ.runs[i]? = some inv) {acts : List Action}
    (hacts : (paxos setup).Run σ acts σ') :
    ∃ inv', σ'.runs[i]? = some inv' ∧
      acts.countP (OwnStep i) + inv'.remaining ≤ 4 * (inv.paxosStubs.length + 1) ∧
      (inv'.Active → (∀ fate randomFail, (σ'.step (.call i fate randomFail)).isSome) ∨
        (σ'.step (.advance i)).isSome) := by
  have hwf := (provenance_of_reachable h).wf
  have hstarted : Started i σ := ⟨hwf, inv, hrun⟩
  obtain ⟨_, inv', hrun'⟩ := hacts.invariant (measured setup i).keeps hstarted
  have hcount := (measured setup i).countP_le hacts hstarted
  rw [remaining_of_some hrun, remaining_of_some hrun'] at hcount
  exact ⟨inv', hrun', hcount.trans (inv.remaining_le (hwf i inv hrun)), enabled_of_active hrun'⟩

/-- A `PutPair` request on two replicas makes all its calls, and another one
starts meanwhile. -/
def twoRequests : List Action :=
  Action.loop 0 2 ++ [.start "b" (.put "k" "y")] ++ Action.loop 0 2 ++ Action.loop 0 2 ++
    [.call 1 .lost false] ++ Action.loop 0 2

set_option maxRecDepth 10000 in
/-- The bound is reached. -/
theorem waitFree_twoRequests :
    ∃ σ : System, twoRequests.countP (OwnStep 0) = 12 ∧
      ∃ inv', σ.runs[0]? = some inv' ∧
        twoRequests.countP (OwnStep 0) + inv'.remaining ≤ 4 * (2 + 1) ∧
        (inv'.Active → (∀ fate randomFail, (σ.step (.call 0 fate randomFail)).isSome) ∨
          (σ.step (.advance 0)).isSome) := by
  have hrun : ∃ σ ∈ (paxos (SharesReplicas (.ofReplicas ["a", "b"]))).execWhere
      Unrestricted (fresh ["a", "b"]) [.start "a" (.put "k" "x")],
      ∃ inv ∈ σ.runs[0]?, inv.paxosStubs.length = 2 ∧
        ∃ σ' ∈ (paxos (SharesReplicas (.ofReplicas ["a", "b"]))).execWhere
          Unrestricted σ twoRequests, σ'.runs.length = 2 := by
    decide +kernel
  obtain ⟨σ, hreach, inv, hi, hlength, σ', hexec, _⟩ := exists_reachable_fresh hrun
  have hwait := waitFree hreach hi (ActionSystem.Run.of_execWhere hexec)
  rw [hlength] at hwait
  exact ⟨σ', by decide, hwait⟩

/-- In every infinite run that gives an invocation its turn again and again,
it returns. -/
theorem eventually_returned {setup : System → Prop} {C : System → Action → Prop}
    {state : Nat → System} {action : Nat → Action} (h : (paxos setup).Reachable C (state 0))
    (hrun : (state 0).runs[i]? = some inv)
    (hfair : (paxos setup).FairRun (OwnStep i) (HasReturned i) state action) :
    ∃ n, HasReturned i (state n) :=
  (measured setup i).eventually_done hfair ⟨(provenance_of_reachable h).wf, inv, hrun⟩

/-- A request runs to its end on one replica, and then others are refused
forever. -/
def putThenRefused (n : Nat) : Action :=
  ((Action.loop 0 1 ++ Action.loop 0 1 ++ Action.loop 0 1 ++ Action.loop 0 1)[n]?).getD
    (.start "a" (.put "coordinator" "x"))

/-- The states of that run, from the start of the request on. -/
def putStates : Nat → System
  | 0 => (fresh ["a"]).start "a" (.put "k" "x") {}
  | n + 1 => ((putStates n).step (putThenRefused n)).getD (putStates n)

/-- From the end of the request on nothing happens to it. -/
theorem hasReturned_putStates (n : Nat) : HasReturned 0 (putStates (8 + n)) := by
  induction n with
  | zero =>
    have hreturned : ∃ inv ∈ (putStates 8).runs[0]?, ¬ inv.Active := by decide +kernel
    exact hreturned
  | succ n ih =>
    have hrefused : putThenRefused (8 + n) = .start "a" (.put "coordinator" "x") := by
      rw [putThenRefused, List.getElem?_eq_none (by simp [Action.loop, Action.calls])]
      rfl
    have hruns : (putStates (8 + (n + 1))).runs = (putStates (8 + n)).runs := by
      rw [← Nat.add_assoc, putStates, hrefused]
      rfl
    rw [HasReturned, hruns]
    exact ih

theorem fairRun_putStates : (paxos (SharesReplicas (.ofReplicas ["a"]))).FairRun (OwnStep 0)
    (HasReturned 0) putStates putThenRefused where
  step n := by
    have hsome : ((putStates n).step (putThenRefused n)).isSome := by
      rcases Nat.lt_or_ge n 8 with hlt | hge
      · have hfirst : ∀ n < 8, ((putStates n).step (putThenRefused n)).isSome := by decide +kernel
        exact hfirst n hlt
      · rw [putThenRefused, List.getElem?_eq_none (by simpa [Action.loop, Action.calls] using hge)]
        rfl
    obtain ⟨σ, hσ⟩ := Option.isSome_iff_exists.mp hsome
    show (putStates n).step (putThenRefused n) = _
    rw [putStates, hσ]
    rfl
  fair n hnot := by
    rcases Nat.lt_or_ge n 8 with hlt | hge
    · exact ⟨7, by omega, by decide⟩
    · obtain ⟨m, rfl⟩ := Nat.exists_eq_add_of_le hge
      exact absurd (hasReturned_putStates m) hnot

/-- The request returns. -/
theorem eventually_returned_putStates : ∃ n, HasReturned 0 (putStates n) := by
  have hstart : (paxos (SharesReplicas (.ofReplicas ["a"]))).step (fresh ["a"])
      (.start "a" (.put "k" "x") {}) = some (putStates 0) := rfl
  have hreach : (paxos (SharesReplicas (.ofReplicas ["a"]))).Reachable Unrestricted
      (putStates 0) :=
    .next (.start ⟨fresh_isInitial ["a"], fun _ => rfl⟩) trivial hstart
  exact eventually_returned hreach rfl fairRun_putStates

end System

end PaxosKVStore
