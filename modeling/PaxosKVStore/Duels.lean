import PaxosKVStore.Delivery
import PaxosKVStore.Termination

/-!
# Proposers that meet do not make each other fail

In Paxos two proposers can take the promises from each other forever.  Here
no promise is recorded, so an acceptor answers a `Prepare` or a `Propose`
whatever it has answered before.  Proposers that meet can make each other
propose something else, and that is all: `course_alone` says that from any
reachable state on, an invocation goes through the same phases, with the same
live replicas, promises and acceptances, and returns with the same code, as
it does when all other invocations and all late calls are left out of the run.
-/

namespace PaxosKVStore

/-- A phase without the text of its status. -/
def Phase.course : Phase → Phase
  | .returned status => .returned { code := status.code }
  | phase => phase

/-- Before the return there is nothing to leave out. -/
theorem Phase.eq_of_course {phase phase' : Phase} (h : phase.course = phase'.course)
    (hactive : ∀ status, phase ≠ .returned status) : phase = phase' := by
  cases phase <;> cases phase' <;> simp_all [course]

namespace Invocation

/-- An invocation without what it has learned of other proposals. -/
def course (inv : Invocation) : Invocation :=
  { inv with
    phase := inv.phase.course
    acceptedId := 0
    acceptedType := .notSet
    acceptedValue := ""
    acceptance := {} }

variable {inv inv₂ : Invocation}

theorem eq_of_course (h : inv.course = inv₂.course) :
    inv.phase.course = inv₂.phase.course ∧
    inv₂ =
      { inv with
        phase := inv₂.phase
        acceptedId := inv₂.acceptedId
        acceptedType := inv₂.acceptedType
        acceptedValue := inv₂.acceptedValue
        acceptance := inv₂.acceptance } := by
  obtain ⟨⟩ := inv
  obtain ⟨⟩ := inv₂
  simp_all [course]

theorem key_course (h : inv.course = inv₂.course) : inv.key = inv₂.key := by
  rw [(eq_of_course h).2]
  rfl

theorem advance_course {inv' : Invocation} (h : inv.course = inv₂.course)
    (hadvance : inv.Advances inv') :
    ∃ inv₂', inv₂.advance = some inv₂' ∧ inv'.course = inv₂'.course := by
  obtain ⟨hcourse, heq⟩ := eq_of_course h
  have hphase : inv.phase = inv₂.phase :=
    Phase.eq_of_course hcourse fun status hreturned => by
      have hactive := hadvance.active
      rw [Active, hreturned] at hactive
      exact hactive
  have hlive : inv₂.livePaxosStubs = inv.livePaxosStubs := by rw [heq]
  have hpromised : inv₂.numOfPromised = inv.numOfPromised := by rw [heq]
  have haccepted : inv₂.numOfAccepted = inv.numOfAccepted := by rw [heq]
  have hgoes : ∀ phase phase' : Phase, phase.course = phase'.course →
      ({ inv with phase := phase } : Invocation).course =
        ({ inv₂ with phase := phase' } : Invocation).course := by
    intro phase phase' hphases
    rw [heq]
    simp [course, hphases]
  cases hadvance with
  | noneLive message hping hnone =>
    refine ⟨inv₂.finish noneLive, ?_, hgoes _ _ rfl⟩
    simp only [advance, ← hphase, hping, hlive, if_pos hnone]
  | startPrepare hping hsome =>
    refine ⟨{ inv₂ with phase := .prepare inv₂.livePaxosStubs }, ?_, hgoes _ _ (by rw [hlive])⟩
    simp only [advance, ← hphase, hping, hlive, if_neg hsome]
  | failedQuorum message hprepare hcount =>
    refine ⟨inv₂.finish inv₂.failedQuorum, ?_, hgoes _ _ rfl⟩
    rw [numOfAcceptors] at hcount
    simp only [advance, ← hphase, hprepare, numOfAcceptors, hlive, hpromised, if_pos hcount]
  | startPropose hprepare hcount =>
    refine ⟨{ inv₂ with phase := .propose inv₂.livePaxosStubs }, ?_, hgoes _ _ (by rw [hlive])⟩
    rw [numOfAcceptors] at hcount
    simp only [advance, ← hphase, hprepare, numOfAcceptors, hlive, hpromised,
      if_neg (not_le.mpr hcount)]
  | failedConsensus message hpropose hcount =>
    refine ⟨inv₂.finish inv₂.failedConsensus, ?_, hgoes _ _ rfl⟩
    rw [numOfAcceptors] at hcount
    simp only [advance, ← hphase, hpropose, numOfAcceptors, hlive, haccepted, if_pos hcount]
  | startInform hpropose hcount =>
    refine ⟨{ inv₂ with phase := .inform inv₂.livePaxosStubs }, ?_, hgoes _ _ (by rw [hlive])⟩
    rw [numOfAcceptors] at hcount
    simp only [advance, ← hphase, hpropose, numOfAcceptors, hlive, haccepted,
      if_neg (not_le.mpr hcount)]
  | done hinform =>
    refine ⟨inv₂.finish Status.OK, ?_, hgoes _ _ rfl⟩
    simp only [advance, ← hphase, hinform]

/-- A failed call. -/
theorem skipped_course (h : inv.course = inv₂.course) (hphase : inv.phase = inv₂.phase)
    (addr : Addr) : (inv.receive addr none).course = (inv₂.receive addr none).course := by
  rw [(eq_of_course h).2, ← hphase]
  rfl

theorem pinged_course (h : inv.course = inv₂.course) (hphase : inv.phase = inv₂.phase)
    (addr : Addr) (status : Status) :
    (inv.receive addr (some (.ping status))).course =
      (inv₂.receive addr (some (.ping status))).course := by
  rw [(eq_of_course h).2, ← hphase]
  simp only [receive, pinged]
  split <;> rfl

/-- Two promises that both count or both do not. -/
theorem promised_course (h : inv.course = inv₂.course) (hphase : inv.phase = inv₂.phase)
    {status status₂ : Status} (hok : status.ok = true ↔ status₂.ok = true) (addr : Addr)
    (response response₂ : PromiseResponse) :
    (inv.receive addr (some (.prepare status response))).course =
      (inv₂.receive addr (some (.prepare status₂ response₂))).course := by
  rw [(eq_of_course h).2, ← hphase]
  by_cases hcounts : status.ok = true
  · have hcounts₂ := hok.mp hcounts
    simp only [receive, promised, if_pos hcounts, if_pos hcounts₂]
    split_ifs <;> rfl
  · have hcounts₂ := mt hok.mpr hcounts
    simp only [receive, promised, if_neg hcounts, if_neg hcounts₂]
    rfl

/-- Two acceptances that both count or both do not. -/
theorem accepted_course (h : inv.course = inv₂.course) (hphase : inv.phase = inv₂.phase)
    {status status₂ : Status} (hok : status.ok = true ↔ status₂.ok = true) (addr : Addr)
    (response response₂ : AcceptResponse) :
    (inv.receive addr (some (.propose status response))).course =
      (inv₂.receive addr (some (.propose status₂ response₂))).course := by
  rw [(eq_of_course h).2, ← hphase]
  by_cases hcounts : status.ok = true
  · have hcounts₂ := hok.mp hcounts
    simp only [receive, accepted, if_pos hcounts, if_pos hcounts₂]
    rfl
  · have hcounts₂ := mt hok.mpr hcounts
    simp only [receive, accepted, if_neg hcounts, if_neg hcounts₂]
    rfl

end Invocation

namespace System

variable {σ τ : System} {i : Nat} {inv inv₂ : Invocation} {addr : Addr} {msg : Message}
  {act : Action}

/-- No promise is in the way of a `Prepare`, -/
theorem prepare_ok (hprov : Provenance σ) (hinv : σ.runs[i]? = some inv) {randomFail : Bool} :
    ((σ.servers addr).prepare {} inv.prepareReq randomFail).1.1.ok = true ↔
      ¬ MultiPaxosServiceImpl.Rejects inv.key randomFail := by
  rw [MultiPaxosServiceImpl.prepare_ok_iff]
  refine and_iff_right ?_
  show ((σ.db addr).paxosLog inv.key inv.round).promisedId < inv.proposeId
  rw [(hprov.db addr).promised, (hprov.wf i inv hinv).proposeId]
  decide

/-- or of a `Propose`. -/
theorem propose_ok (hprov : Provenance σ) (hinv : σ.runs[i]? = some inv) {randomFail : Bool} :
    ((σ.servers addr).propose {} inv.proposeReq randomFail).1.1.ok = true ↔
      ¬ MultiPaxosServiceImpl.Rejects inv.key randomFail := by
  rw [MultiPaxosServiceImpl.propose_ok_iff]
  refine and_iff_right ?_
  show ((σ.db addr).paxosLog inv.key inv.round).promisedId ≤ inv.proposeId
  rw [(hprov.db addr).promised, (hprov.wf i inv hinv).proposeId]
  decide

/-- The next call of the invocation is made in both, and counts in both or in
neither. -/
theorem course_call (hσ : Provenance σ) (hτ : Provenance τ) (hinv : σ.runs[i]? = some inv)
    (hinv₂ : τ.runs[i]? = some inv₂) (h : inv.course = inv₂.course) (hcall : inv.Calls addr msg) :
    ∃ msg₂, inv₂.Calls addr msg₂ ∧ ∀ fate randomFail,
      (inv.receive addr (σ.callAnswer addr msg randomFail fate)).course =
        (inv₂.receive addr (τ.callAnswer addr msg₂ randomFail fate)).course := by
  have hphases := (Invocation.eq_of_course h).1
  cases hcall with
  | ping hphase =>
    have hphase₂ := Phase.eq_of_course hphases (by simp [hphase])
    refine ⟨_, .ping (hphase₂ ▸ hphase), fun fate randomFail => ?_⟩
    cases fate with
    | delivered => exact Invocation.pinged_course h hphase₂ addr Status.OK
    | lost => exact Invocation.skipped_course h hphase₂ addr
    | replyLost => exact Invocation.skipped_course h hphase₂ addr
  | prepare hphase =>
    have hphase₂ := Phase.eq_of_course hphases (by simp [hphase])
    refine ⟨_, .prepare (hphase₂ ▸ hphase), fun fate randomFail => ?_⟩
    cases fate with
    | delivered =>
      have hok : ((σ.servers addr).prepare {} inv.prepareReq randomFail).1.1.ok = true ↔
          ((τ.servers addr).prepare {} inv₂.prepareReq randomFail).1.1.ok = true := by
        rw [prepare_ok hσ hinv, prepare_ok hτ hinv₂, Invocation.key_course h]
      simp only [callAnswer, answer, MultiPaxosServiceImpl.handle]
      exact Invocation.promised_course h hphase₂ hok addr _ _
    | lost => exact Invocation.skipped_course h hphase₂ addr
    | replyLost => exact Invocation.skipped_course h hphase₂ addr
  | propose hphase =>
    have hphase₂ := Phase.eq_of_course hphases (by simp [hphase])
    refine ⟨_, .propose (hphase₂ ▸ hphase), fun fate randomFail => ?_⟩
    cases fate with
    | delivered =>
      have hok : ((σ.servers addr).propose {} inv.proposeReq randomFail).1.1.ok = true ↔
          ((τ.servers addr).propose {} inv₂.proposeReq randomFail).1.1.ok = true := by
        rw [propose_ok hσ hinv, propose_ok hτ hinv₂, Invocation.key_course h]
      simp only [callAnswer, answer, MultiPaxosServiceImpl.handle]
      exact Invocation.accepted_course h hphase₂ hok addr _ _
    | lost => exact Invocation.skipped_course h hphase₂ addr
    | replyLost => exact Invocation.skipped_course h hphase₂ addr
  | inform hphase =>
    have hphase₂ := Phase.eq_of_course hphases (by simp [hphase])
    refine ⟨_, .inform (hphase₂ ▸ hphase), fun fate randomFail => ?_⟩
    cases fate with
    | delivered =>
      -- the answer is ignored
      simp only [callAnswer, answer, MultiPaxosServiceImpl.handle]
      exact Invocation.skipped_course h hphase₂ addr
    | lost => exact Invocation.skipped_course h hphase₂ addr
    | replyLost => exact Invocation.skipped_course h hphase₂ addr

/-- The invocation `i` has come equally far in the two systems. -/
structure SameCourse (i : Nat) (σ τ : System) : Prop where
  left : Provenance σ
  right : Provenance τ
  course : ∃ inv inv₂, σ.runs[i]? = some inv ∧ τ.runs[i]? = some inv₂ ∧ inv.course = inv₂.course

/-- Its own step does the same in both. -/
theorem SameCourse.own (h : SameCourse i σ τ) {σ' : System} (hown : OwnStep i act)
    (hstep : StepCases σ act σ') : ∃ τ', τ.step act = some τ' ∧ SameCourse i σ' τ' := by
  obtain ⟨hσ, hτ, inv, inv₂, hinv, hinv₂, hcourse⟩ := h
  have hσ' := provenance_step hσ hstep
  cases hstep with
  | refuse hrefusal => exact hown.elim
  | enter hrefusal => exact hown.elim
  | arrive context randomFail hindex => exact hown.elim
  | @call run inv' receiver msg fate randomFail hrun hcall =>
    obtain rfl : run = i := hown
    rw [hinv] at hrun
    cases hrun
    obtain ⟨msg₂, hcall₂, hreceive⟩ := course_call hσ hτ hinv hinv₂ hcourse hcall
    have hstep₂ : τ.step (.call run fate randomFail) =
        some (τ.call run inv₂ receiver msg₂ fate randomFail) := by
      simp only [step, hinv₂, Invocation.nextCall_of_calls hcall₂]
    refine ⟨_, hstep₂, hσ', provenance_step hτ (step_cases hstep₂), _, _, ?_, ?_,
      hreceive fate randomFail⟩
    · rw [call_runs, getElem?_set_self' hinv]
    · rw [call_runs, getElem?_set_self' hinv₂]
  | @advance run inv' inv'' hrun hadvance =>
    obtain rfl : run = i := hown
    rw [hinv] at hrun
    cases hrun
    obtain ⟨inv₂', hadvance₂, hcourse'⟩ := Invocation.advance_course hcourse hadvance
    have hstep₂ : τ.step (.advance run) = some ((τ.setRun run inv₂').noteReturn run inv₂') := by
      simp only [step, hinv₂, hadvance₂]
    refine ⟨_, hstep₂, hσ', provenance_step hτ (step_cases hstep₂), _, _, ?_, ?_, hcourse'⟩
    · rw [noteReturn_runs, setRun, getElem?_set_self' hinv]
    · rw [noteReturn_runs, setRun, getElem?_set_self' hinv₂]

/-- It does not notice the steps of the others. -/
theorem SameCourse.other (h : SameCourse i σ τ) {σ' : System} (hown : ¬ OwnStep i act)
    (hstep : StepCases σ act σ') : SameCourse i σ' τ := by
  obtain ⟨hσ, hτ, inv, inv₂, hinv, hinv₂, hcourse⟩ := h
  exact ⟨provenance_step hσ hstep, hτ, inv, inv₂, getElem?_other hinv hown hstep, hinv₂, hcourse⟩

/-- From any reachable state on, an invocation has the same course and returns
with the same code as in the run that has its own steps only. -/
theorem course_alone {setup : System → Prop} {C : System → Action → Prop}
    (h : (paxos setup).Reachable C σ) (hrun : σ.runs[i]? = some inv) {acts : List Action}
    {σ' : System} (hacts : (paxos setup).Run σ acts σ') :
    ∃ τ inv' alone, (paxos setup).Run σ (acts.filter fun act => OwnStep i act) τ ∧
      σ'.runs[i]? = some inv' ∧ τ.runs[i]? = some alone ∧ inv'.course = alone.course ∧
      ∀ status, inv'.phase = .returned status →
        ∃ status', alone.phase = .returned status' ∧ status'.code = status.code := by
  have hprov := provenance_of_reachable h
  obtain ⟨τ, halone, hsame⟩ := hacts.alone (R := SameCourse i)
    (fun s t act s' hsame hown hstep => hsame.own hown (step_cases hstep))
    (fun s t act s' hsame hown hstep => hsame.other hown (step_cases hstep))
    ⟨hprov, hprov, inv, inv, hrun, hrun, rfl⟩
  obtain ⟨inv', alone, hinv', hinv, hcourse⟩ := hsame.course
  refine ⟨τ, inv', alone, halone, hinv', hinv, hcourse, fun status hreturned => ?_⟩
  have hphase := (Invocation.eq_of_course hcourse).1
  rw [hreturned] at hphase
  cases hother : alone.phase with
  | returned status' =>
    rw [hother] at hphase
    exact ⟨status', rfl, (congrArg Status.code (Phase.returned.inj hphase)).symm⟩
  | _ =>
    rw [hother] at hphase
    cases hphase

/-- Two proposers take the same round.  The first has its proposal accepted
before the second asks for its promises. -/
def twoProposers : List Action :=
  Action.loop 0 2 ++ Action.loop 1 2 ++ Action.loop 0 2 ++ Action.loop 0 2 ++ Action.loop 1 2 ++
    Action.loop 1 2 ++ Action.loop 1 2 ++ Action.loop 0 2

set_option maxRecDepth 10000 in
/-- The second proposes what the first has, and succeeds like alone. -/
theorem course_alone_twoProposers :
    ∃ (σ τ : System) (inv' alone : Invocation), σ.runs[1]? = some inv' ∧
      τ.runs[1]? = some alone ∧ inv'.request = .put "k" "y" ∧ inv'.proposal.value = "x" ∧
      inv'.course = alone.course ∧
      ∃ status, alone.phase = .returned status ∧ status.code = .ok := by
  have hrun : ∃ σ ∈ (paxos (SharesReplicas (.ofReplicas ["a", "b"]))).execWhere
      Unrestricted (fresh ["a", "b"]) [.start "a" (.put "k" "x"), .start "b" (.put "k" "y")],
      ∃ inv ∈ σ.runs[1]?, ∃ σ' ∈ (paxos (SharesReplicas (.ofReplicas ["a", "b"]))).execWhere
        Unrestricted σ twoProposers, ∃ inv' ∈ σ'.runs[1]?,
          inv'.request = .put "k" "y" ∧ inv'.proposal.value = "x" ∧
            inv'.phase = .returned Status.OK := by
    decide +kernel
  obtain ⟨σ, hreach, inv, hi, σ', hexec, inv₁, hinv₁, hrequest, hvalue, hphase⟩ :=
    exists_reachable_fresh hrun
  obtain ⟨τ, inv', alone, _, hinv', hinv, hcourse, hcode⟩ :=
    course_alone hreach hi (ActionSystem.Run.of_execWhere hexec)
  obtain rfl : inv₁ = inv' := Option.some.inj (hinv₁.symm.trans hinv')
  exact ⟨σ', τ, inv₁, alone, hinv', hinv, hrequest, hvalue, hcourse, hcode _ hphase⟩

end System

end PaxosKVStore
