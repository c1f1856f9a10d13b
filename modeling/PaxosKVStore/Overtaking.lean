import PaxosKVStore.Delivery

/-!
# Informs that another invocation overtakes

`Inform` answers "Operation overwritten by others" and executes nothing when
a higher round of the key is logged.  The text says that the higher operation
takes its place.  `NeverDropped` is that promise: an acknowledged operation is
executed by every live replica, or an invocation with a higher round that
reached its `Propose` majority is executed there instead, and the refusal is
only ever given for the sake of such an invocation.

A round is logged by its first `Prepare`, though, also when the invocation
later fails, and nothing takes a failed round back.  `NeverDropped` holds in a
state if and only if, of the invocations on a key that did not fail, the one
with the highest round is `Overtaken` at no replica.

`InformsInOrder` ties the answer to every handled `Inform` to the events
before it, and carries the equivalence.
-/

namespace PaxosKVStore

/-- What `Inform` answers instead of executing. -/
def overwritten : Status :=
  { code := .aborted, message := "Aborted. Operation overwritten by others." }

/-- `Inform` executes, or gives one answer. -/
theorem MultiPaxosServiceImpl.inform_status (s : MultiPaxosServiceImpl)
    (request : InformRequest) :
    (s.inform {} request).1 =
      if s.kvDb.Supersedes request.key request.acceptance.round then overwritten
      else Status.OK := by
  have hiff := s.inform_ok_iff request
  have hcases : (s.inform {} request).1 = overwritten ∨ (s.inform {} request).1 = Status.OK := by
    simp only [inform, Bool.false_eq_true, if_false]
    split
    · exact Or.inl rfl
    · exact Or.inr rfl
  split
  · rename_i hsuper
    refine hcases.resolve_right fun hok => ?_
    rw [hok] at hiff
    exact hiff.mp rfl hsuper
  · rename_i hnone
    refine hcases.resolve_left fun hover => ?_
    rw [hover] at hiff
    cases hiff.mpr hnone

/-! ## The order of the handled calls -/

/-- The event makes `addr` log a round of `key` above `round`. -/
def Event.LogsAbove (addr : Addr) (key : String) (round : Int) : Event → Prop
  | .handled _ receiver msg reply _ =>
      receiver = addr ∧ ∃ slot ∈ msg.logged reply, slot.1 = key ∧ round < slot.2
  | _ => False

instance (addr : Addr) (key : String) (round : Int) (e : Event) :
    Decidable (e.LogsAbove addr key round) :=
  match e with
  | .handled _ receiver msg reply _ =>
      inferInstanceAs (Decidable
        (receiver = addr ∧ ∃ slot ∈ msg.logged reply, slot.1 = key ∧ round < slot.2))
  | .refused .. => isFalse id
  | .sent .. => isFalse id
  | .returned .. => isFalse id

theorem Event.logsAbove_iff {addr : Addr} {key : String} {round : Int} {e : Event} :
    e.LogsAbove addr key round ↔ ∃ r, round < r ∧ e.Logs addr key r := by
  cases e with
  | handled run receiver msg reply changed =>
    simp only [LogsAbove, Logs]
    constructor
    · rintro ⟨rfl, ⟨key', r⟩, hslot, rfl, hlt⟩
      exact ⟨r, hlt, rfl, hslot⟩
    · rintro ⟨r, hlt, rfl, hslot⟩
      exact ⟨rfl, (key, r), hslot, rfl, hlt⟩
  | _ => simp [LogsAbove, Logs]

/-- A call of a higher round than `round` was handled at `addr` for `key`
among these events. -/
def LoggedAbove (addr : Addr) (key : String) (round : Int) (events : List Event) : Prop :=
  ∃ e ∈ events, e.LogsAbove addr key round

instance (addr : Addr) (key : String) (round : Int) (events : List Event) :
    Decidable (LoggedAbove addr key round events) :=
  inferInstanceAs (Decidable (∃ e ∈ events, e.LogsAbove addr key round))

/-- The newest event is an `Inform` of `run`, handled after a call of a higher
round. -/
def OvertakenNow (run : Nat) : List Event → Prop
  | .handled run' addr (.inform request) _ _ :: older =>
      run' = run ∧ LoggedAbove addr request.key request.acceptance.round older
  | _ => False

instance (run : Nat) (events : List Event) : Decidable (OvertakenNow run events) := by
  unfold OvertakenNow
  split <;> infer_instance

/-- The answer to the newest event, if it is an `Inform`, is the one that the
calls handled before it ask for. -/
def AnsweredInOrder : List Event → Prop
  | .handled _ addr (.inform request) reply _ :: older =>
      reply = .inform
        (if LoggedAbove addr request.key request.acceptance.round older then overwritten
        else Status.OK)
  | _ => True

namespace System

/-- A call of a higher round on its key reached some replica before the
`Inform` of the invocation. -/
def Overtaken (σ : System) (run : Nat) : Prop :=
  ∃ recent ∈ σ.history.tails, OvertakenNow run recent

instance (σ : System) (run : Nat) : Decidable (σ.Overtaken run) :=
  inferInstanceAs (Decidable (∃ recent ∈ σ.history.tails, OvertakenNow run recent))

/-- Every `Inform` was answered as the calls before it ask for. -/
def InformsInOrder (σ : System) : Prop :=
  ∀ recent ∈ σ.history.tails, AnsweredInOrder recent

/-- The rounds that a server logged are those of the calls it handled. -/
theorem Replays.supersedes_iff {σ : System} (h : Replays σ) (addr : Addr) (key : String)
    (round : Int) :
    (σ.db addr).Supersedes key round ↔ LoggedAbove addr key round σ.history := by
  constructor
  · rintro ⟨r, hr, hlt⟩
    obtain ⟨e, he, hlogs⟩ := (h.rounds addr key r).mp hr
    exact ⟨e, he, Event.logsAbove_iff.mpr ⟨r, hlt, hlogs⟩⟩
  · rintro ⟨e, he, habove⟩
    obtain ⟨r, hlt, hlogs⟩ := Event.logsAbove_iff.mp habove
    exact ⟨r, (h.rounds addr key r).mpr ⟨e, he, hlogs⟩, hlt⟩

/-- An event that is no handled call asks for no answer. -/
theorem informsInOrder_cons {e : Event} {older : List Event} (he : ¬ e.IsHandled)
    (h : ∀ recent ∈ older.tails, AnsweredInOrder recent) :
    ∀ recent ∈ (e :: older).tails, AnsweredInOrder recent := by
  rw [List.tails_cons, List.forall_mem_cons]
  refine ⟨?_, h⟩
  cases e with
  | handled run receiver msg reply changed => exact absurd trivial he
  | _ => trivial

theorem informsInOrder_step {σ σ' : System} {act : Action} (hreplays : Replays σ)
    (h : InformsInOrder σ) (hdelivered : Delivered σ act) (hstep : StepCases σ act σ') :
    InformsInOrder σ' := by
  cases hstep with
  | refuse hrefusal => exact informsInOrder_cons id h
  | enter hrefusal => exact h
  | @call run inv receiver msg fate randomFail hrun hcall =>
    cases hdelivered
    have hsent : ∀ recent ∈ (Event.sent run receiver msg :: σ.history).tails,
        AnsweredInOrder recent := informsInOrder_cons id h
    show ∀ recent ∈ (Event.handled run receiver msg (σ.answer receiver msg {} randomFail) _ ::
      .sent run receiver msg :: σ.history).tails, AnsweredInOrder recent
    rw [List.tails_cons, List.forall_mem_cons]
    refine ⟨?_, hsent⟩
    cases msg with
    | inform request =>
      have hsuper : (σ.db receiver).Supersedes request.key request.acceptance.round ↔
          LoggedAbove receiver request.key request.acceptance.round
            (.sent run receiver (.inform request) :: σ.history) := by
        rw [hreplays.supersedes_iff, LoggedAbove, LoggedAbove, List.exists_mem_cons_iff]
        exact (or_iff_right id).symm
      show Reply.inform ((σ.servers receiver).inform {} request).1 = _
      rw [MultiPaxosServiceImpl.inform_status]
      exact congrArg Reply.inform (if_congr hsuper rfl rfl)
    | _ => trivial
  | @advance run inv inv' hrun hadvance =>
    unfold noteReturn
    split
    · exact informsInOrder_cons id h
    · exact h
  | arrive context randomFail hindex => exact hdelivered.elim

theorem informsInOrder_of_reachable {setup : System → Prop} {C : System → Action → Prop}
    {σ : System} (hC : ∀ σ act, C σ act → Delivered σ act)
    (h : (paxos setup).Reachable C σ) : InformsInOrder σ := by
  refine ActionSystem.Reachable.invariant ?_ ?_ h
  · intro σ hinit recent hrecent
    obtain rfl : recent = [] := by simpa [hinit.1.history] using hrecent
    trivial
  · intro σ act σ' hreach hcond hstep horder
    exact informsInOrder_step (replays_of_reachable hreach) horder (hC _ _ hcond)
      (step_cases hstep)

/-- An event of the history is the newest one of a part of it. -/
theorem exists_tails_of_mem {e : Event} {events : List Event} (h : e ∈ events) :
    ∃ older, e :: older ∈ events.tails := by
  obtain ⟨newer, older, rfl⟩ := List.append_of_mem h
  exact ⟨older, (List.mem_tails _ _).mpr (List.suffix_append _ _)⟩

/-- An invocation was overtaken if one of its `Inform` requests was refused. -/
theorem InformsInOrder.overtaken_iff {σ : System} (h : InformsInOrder σ) {run : Nat} :
    σ.Overtaken run ↔ ∃ addr request changed,
      .handled run addr (.inform request) (.inform overwritten) changed ∈ σ.history := by
  constructor
  · rintro ⟨recent, hrecent, hnow⟩
    have hanswer := h recent hrecent
    unfold OvertakenNow at hnow
    split at hnow
    · rename_i run' addr request reply changed older
      obtain ⟨rfl, habove⟩ := hnow
      rw [AnsweredInOrder, if_pos habove] at hanswer
      subst hanswer
      exact ⟨addr, request, changed, ((List.mem_tails _ _).mp hrecent).mem List.mem_cons_self⟩
    · exact hnow.elim
  · rintro ⟨addr, request, changed, hmem⟩
    obtain ⟨older, hrecent⟩ := exists_tails_of_mem hmem
    have hanswer := h _ hrecent
    refine ⟨_, hrecent, rfl, ?_⟩
    by_contra habove
    rw [AnsweredInOrder, if_neg habove] at hanswer
    cases hanswer

/-! ## Executed operations -/

/-- `addr` has executed the operation that the invocation informed of. -/
def ExecutedAt (σ : System) (run : Nat) (inv : Invocation) (addr : Addr) : Prop :=
  (run, inv.informReq) ∈ σ.learned addr inv.key

/-- An `Inform` that nothing overtook was executed. -/
theorem InformsInOrder.executedAt {σ : System} (h : InformsInOrder σ) {run : Nat}
    {inv : Invocation} {addr : Addr} (hinformed : σ.InformedAt run inv addr)
    (hfree : ¬ σ.Overtaken run) : σ.ExecutedAt run inv addr := by
  obtain ⟨reply, changed, hmem⟩ := hinformed
  obtain ⟨older, hrecent⟩ := exists_tails_of_mem hmem
  have hanswer := h _ hrecent
  have hbelow : ¬ LoggedAbove addr inv.informReq.key inv.informReq.acceptance.round older :=
    fun habove => hfree ⟨_, hrecent, rfl, habove⟩
  rw [AnsweredInOrder, if_neg hbelow] at hanswer
  subst hanswer
  exact List.mem_filterMap.mpr ⟨_, hmem, if_pos ⟨rfl, rfl, rfl⟩⟩

/-- No acknowledged operation is dropped for one that does not commit.  An
invocation that is still running may still execute its operation, at the
replicas that it has not informed yet. -/
structure NeverDropped (σ : System) : Prop where
  kept : ∀ (i : Nat) (inv : Invocation), σ.runs[i]? = some inv → inv.Returned true →
    ∀ a ∈ inv.livePaxosStubs, σ.ExecutedAt i inv a ∨
      ∃ (j : Nat) (later : Invocation), σ.runs[j]? = some later ∧ later.key = inv.key ∧
        inv.round < later.round ∧
        ((later.Committed ∧ σ.ExecutedAt j later a) ∨
          (later.Active ∧ ¬ σ.InformedAt j later a))
  refused : ∀ (i : Nat) (a : Addr) (request : InformRequest) (changed : Bool),
    .handled i a (.inform request) (.inform overwritten) changed ∈ σ.history →
      ∃ later ∈ σ.runs, later.key = request.key ∧
        request.acceptance.round < later.round ∧ (later.Committed ∨ later.Active)

/-! ## The last invocation that did not fail -/

/-- Every invocation on the key with a higher round has failed. -/
def Last (σ : System) (inv : Invocation) : Prop :=
  ∀ later ∈ σ.runs, later.key = inv.key → inv.round < later.round → later.Returned false

instance (σ : System) (inv : Invocation) : Decidable (σ.Last inv) :=
  inferInstanceAs (Decidable (∀ later ∈ σ.runs, _ → _ → _))

/-- The last invocation on a key that informs was not overtaken. -/
def LastNotOvertaken (σ : System) : Prop :=
  ∀ (i : Nat) (inv : Invocation), σ.runs[i]? = some inv → inv.Committed → σ.Last inv →
    ¬ σ.Overtaken i

/-- Some invocation on the key that did not fail has the highest round. -/
theorem exists_last {σ : System} {inv : Invocation} (hmem : inv ∈ σ.runs)
    (hnot : ¬ inv.Returned false) :
    ∃ last ∈ σ.runs, last.key = inv.key ∧ inv.round ≤ last.round ∧ ¬ last.Returned false ∧
      σ.Last last := by
  have hne : (σ.runs.filter fun other =>
      other.key = inv.key ∧ ¬ other.Returned false).toFinset.Nonempty :=
    ⟨inv, by simp [hmem, hnot]⟩
  obtain ⟨last, hlast, hmax⟩ := Finset.exists_max_image _ Invocation.round hne
  simp only [List.mem_toFinset, List.mem_filter, decide_eq_true_eq] at hlast hmax
  obtain ⟨hlast, hkey, hlive⟩ := hlast
  refine ⟨last, hlast, hkey, hmax inv ⟨hmem, rfl, hnot⟩, hlive, ?_⟩
  intro later hlater hkey' hlt
  by_contra hlater'
  exact absurd (hmax later ⟨hlater, hkey'.trans hkey, hlater'⟩) (not_le.mpr hlt)

/-- An invocation that did not fail informs, or may still. -/
theorem committed_or_active {inv : Invocation} (h : ¬ inv.Returned false) :
    inv.Committed ∨ inv.Active := by
  unfold Invocation.Committed Invocation.Active
  cases hphase : inv.phase with
  | returned status =>
    refine Or.inl ?_
    cases hok : status.ok with
    | true => exact hok
    | false => exact absurd ⟨status, hphase, hok⟩ h
  | _ => exact Or.inr trivial

theorem returned_of_committed {inv : Invocation} (h : inv.Committed) (hidle : ¬ inv.Active) :
    inv.Returned true := by
  unfold Invocation.Committed at h
  unfold Invocation.Active at hidle
  split at h
  · rename_i hphase
    rw [hphase] at hidle
    exact absurd trivial hidle
  · rename_i status hphase
    exact ⟨status, hphase, h⟩
  · exact h.elim

theorem Provenance.committed_of_informedAt {σ : System} (hprov : Provenance σ) {i : Nat}
    {inv : Invocation} {a : Addr} (hrun : σ.runs[i]? = some inv)
    (hinformed : σ.InformedAt i inv a) : inv.Committed := by
  obtain ⟨reply, changed, hmem⟩ := hinformed
  obtain ⟨inv', hrun', hcommitted, _⟩ := hprov.handled_inform hmem
  obtain rfl : inv = inv' := Option.some.inj (hrun.symm.trans hrun')
  exact hcommitted

/-- Committed invocations have the same live replicas. -/
theorem Lossless.live_eq {stubs : PaxosStubs} {σ : System} (hlossless : Lossless stubs σ)
    (hprov : Provenance σ) {i j : Nat} {inv other : Invocation} (hi : σ.runs[i]? = some inv)
    (hj : σ.runs[j]? = some other) (hinv : inv.Committed) (hother : other.Committed) :
    other.livePaxosStubs = inv.livePaxosStubs := by
  rw [(hlossless.sees j other hj).live ((hprov.wf j other hj).proposed_of_committed hother),
    (hlossless.sees i inv hi).live ((hprov.wf i inv hi).proposed_of_committed hinv)]

/-- The promise forbids an overtaken last invocation: nothing that has not
failed takes its place. -/
theorem NeverDropped.lastNotOvertaken {σ : System} (hprov : Provenance σ)
    (horder : InformsInOrder σ) (hkept : NeverDropped σ) : LastNotOvertaken σ := by
  intro i inv hrun hcommitted hlast hover
  obtain ⟨a, request, changed, hmem⟩ := horder.overtaken_iff.mp hover
  obtain ⟨inv', hrun', _, rfl, hacceptance⟩ := hprov.handled_inform hmem
  obtain rfl : inv = inv' := Option.some.inj (hrun.symm.trans hrun')
  obtain ⟨later, hlater, hkey, hlt, hnot⟩ := hkept.refused i a _ changed hmem
  rw [hacceptance] at hlt
  obtain ⟨status, hphase, hok⟩ := hlast later hlater hkey hlt
  simp [Invocation.Committed, Invocation.Active, hphase, hok] at hnot

/-- Where the last invocation of each key is overtaken nowhere, a replica that
the last one has informed has executed its operation, and one that it has not
informed will be. -/
theorem LastNotOvertaken.executes {stubs : PaxosStubs} {σ : System}
    (h : (paxos (SharesReplicas stubs)).Reachable Delivered σ) (hfree : LastNotOvertaken σ)
    {i j : Nat} {inv last : Invocation} (hi : σ.runs[i]? = some inv) (hinv : inv.Committed)
    (hj : σ.runs[j]? = some last) (hnot : ¬ last.Returned false) (hlast : σ.Last last)
    {a : Addr} (ha : a ∈ inv.livePaxosStubs) :
    (last.Committed ∧ σ.ExecutedAt j last a) ∨ (last.Active ∧ ¬ σ.InformedAt j last a) := by
  have hprov := provenance_of_reachable h
  have horder := informsInOrder_of_reachable (fun _ _ hcond => hcond) h
  have hlossless := lossless_of_reachable (fun _ _ hcond => hcond) h
  have hinforms := informsLive_of_reachable (fun _ _ hcond => hcond) h
  by_cases hinformed : σ.InformedAt j last a
  · have hcommitted := hprov.committed_of_informedAt hj hinformed
    exact Or.inl ⟨hcommitted, horder.executedAt hinformed (hfree j last hj hcommitted hlast)⟩
  · refine Or.inr ⟨?_, hinformed⟩
    by_contra hidle
    -- it has returned OK, so it has informed all replicas
    have hcommitted := (committed_or_active hnot).resolve_right hidle
    have hsame := hlossless.live_eq hprov hi hj hinv hcommitted
    exact hinformed (informed_of_returned hinforms hj
      (returned_of_committed hcommitted hidle) (hsame ▸ ha))

/-- The last invocation of the key takes the place of a refused one. -/
theorem LastNotOvertaken.exists_above {σ : System} (hprov : Provenance σ)
    (horder : InformsInOrder σ) (hfree : LastNotOvertaken σ) {i : Nat} {a : Addr}
    {request : InformRequest} {changed : Bool}
    (hmem : .handled i a (.inform request) (.inform overwritten) changed ∈ σ.history) :
    ∃ later ∈ σ.runs, later.key = request.key ∧
      request.acceptance.round < later.round ∧ (later.Committed ∨ later.Active) := by
  obtain ⟨inv, hrun, hcommitted, rfl, hacceptance⟩ := hprov.handled_inform hmem
  have hover := horder.overtaken_iff.mpr ⟨a, _, changed, hmem⟩
  by_contra hnone
  refine hfree i inv hrun hcommitted ?_ hover
  intro later hlater hkey hlt
  by_contra hnot
  refine hnone ⟨later, hlater, hkey, ?_, committed_or_active hnot⟩
  rw [hacceptance]
  exact hlt

/-- A `PutPair` request on `a` has its acceptances when one on `b` for the
same key takes the next round. -/
def acceptedThenNext : List Action :=
  [.start "a" (.put "k" "x")] ++ Action.loop 0 3 ++ Action.loop 0 3 ++ Action.loop 0 3 ++
    [.start "b" (.put "k" "y")] ++ Action.loop 1 3

/-- All acceptors fail the prepare of `b` at random, and then `a` informs. -/
def failingOvertaker : List Action :=
  acceptedThenNext ++ List.replicate 3 (.call 1 .delivered true) ++ [.advance 1] ++
    Action.loop 0 3

/-- The acceptors promise, `a` informs, and then `b` proposes and informs. -/
def committingOvertaker : List Action :=
  acceptedThenNext ++ Action.loop 1 3 ++ Action.loop 0 3 ++ Action.loop 1 3 ++
    Action.loop 1 3

end System

end PaxosKVStore
