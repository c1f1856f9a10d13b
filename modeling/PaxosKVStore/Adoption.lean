import PaxosKVStore.Agreement

/-!
# Which operation an invocation informs of

A promise may carry an operation that the acceptor accepted before, and the
proposer then proposes this operation and not its own.  `firstCarried` reads
the first such operation off the history.  `CarriedAdopted` is the invariant
that ties it to the variables of the invocation: all acceptances have id 1,
so a later promise never replaces what an earlier one carried.

Two properties of the requests follow, each with the exact place where it
fails.  An invocation that returns OK informs of its own operation if and
only if the first carried operation, if there is one, is its own.  The
operation of an invocation that returned ABORTED is informed of if and only
if another one was first handed it and informs.  Both failures need a
`Prepare` for a slot that the acceptor had promised to somebody else, which
the comment of `Prepare` says it refuses.  In a run without such promises an
aborted request has no effect: its operation may be handed out, but only to
an invocation that does not find a majority.
-/

namespace PaxosKVStore

open MultiPaxosServiceImpl (Rejects)

/-- The operation that the event hands out to the invocation `run` with a
promise. -/
def Event.carried (run : Nat) : Event → Option Operation
  | .handled i _ _ (.prepare status response) _ =>
      if i = run ∧ status.ok = true ∧ 0 < response.acceptedId then some response.operation
      else none
  | _ => none

/-- The first operation that was handed out to the invocation `run`.  The
newest event is the head of the history. -/
def firstCarried (run : Nat) : List Event → Option Operation
  | [] => none
  | e :: older => (firstCarried run older).or (e.carried run)

theorem Event.carried_other {run i : Nat} (h : i ≠ run) (receiver : Addr) (msg : Message)
    (reply : Reply) (changed : Bool) :
    (Event.handled i receiver msg reply changed).carried run = none := by
  cases reply <;> simp [Event.carried, h]

/-- An event that hands nothing out leaves the first carried operation. -/
theorem firstCarried_cons {run : Nat} {e : Event} (h : e.carried run = none)
    (older : List Event) : firstCarried run (e :: older) = firstCarried run older := by
  rw [firstCarried, h, Option.or_none]

/-- Nothing is carried by a history that hands nothing out. -/
theorem firstCarried_eq_none {run : Nat} {history : List Event}
    (h : ∀ e ∈ history, e.carried run = none) : firstCarried run history = none := by
  induction history with
  | nil => rfl
  | cons e older ih =>
    rw [firstCarried_cons (h e List.mem_cons_self)]
    exact ih fun e' he' => h e' (List.mem_cons_of_mem _ he')

namespace Invocation

/-- What the invocation has adopted. -/
def adoption (inv : Invocation) : Option Operation :=
  if 0 < inv.acceptedId then some inv.acceptedOperation else none

/-- The proposal is the adopted operation, or the own one. -/
theorem proposal_eq (inv : Invocation) :
    inv.proposal = inv.adoption.getD inv.request.setProposeValue := by
  unfold proposal adoption
  split <;> rfl

end Invocation

namespace System

/-- Every invocation has adopted what was carried to it first. -/
def CarriedAdopted (σ : System) : Prop :=
  ∀ (i : Nat) (inv : Invocation), σ.runs[i]? = some inv →
    firstCarried i σ.history = inv.adoption

/-- A promise adds to the adoption what it adds to the history. -/
theorem Delivers.adoption {σ : System} {run : Nat} {inv inv' : Invocation} {addr : Addr}
    {randomFail changed : Bool} {msg : Message} {reply : Reply}
    (h : σ.Delivers inv addr randomFail msg reply inv') :
    inv'.adoption = inv.adoption.or ((Event.handled run addr msg reply changed).carried run) := by
  cases h with
  | refuse hphase hno hreject =>
    simp [Event.carried, hno, Invocation.adoption, Invocation.acceptedOperation]
  | promise hphase hok hreject hlog hid =>
    simp [Event.carried, hid, Invocation.adoption, Invocation.acceptedOperation]
  | adopt hphase hok hreject hlog hid hop hnone =>
    simp [Event.carried, hok, hid, hnone, Invocation.adoption, Invocation.acceptedOperation,
      PromiseResponse.operation]
  | keep hphase hok hreject hlog hid hone =>
    simp [hone, Invocation.adoption, Invocation.acceptedOperation]
  | ping hphase => exact (Option.or_none).symm
  | reject hphase hno hreject => exact (Option.or_none).symm
  | accept hphase hok => exact (Option.or_none).symm
  | inform hphase hiff => exact (Option.or_none).symm

theorem carriedAdopted_step {σ σ' : System} {act : Action} (hprov : Provenance σ)
    (h : CarriedAdopted σ) (hdelivered : Delivered σ act) (hstep : StepCases σ act σ') :
    CarriedAdopted σ' := by
  cases hstep with
  | refuse hrefusal =>
    intro i inv hi
    rw [firstCarried_cons rfl]
    exact h i inv hi
  | enter hrefusal =>
    intro i inv hi
    rcases getElem?_snoc_cases hi with ⟨hlen, rfl⟩ | hi
    · -- no event is about an invocation that has not started
      refine firstCarried_eq_none fun e he => ?_
      cases e with
      | handled j receiver msg reply changed =>
        obtain ⟨inv', hj, _⟩ := hprov.sent j receiver msg (hprov.handled j _ _ _ _ he)
        refine Event.carried_other (ne_of_lt ?_) receiver msg reply changed
        rw [hlen]
        exact (List.getElem?_eq_some_iff.mp hj).1
      | _ => rfl
    · exact h i inv hi
  | @call run inv0 receiver msg fate randomFail hrun hcall =>
    cases hdelivered
    obtain ⟨reply, inv1, hdelivers, hruns, hhistory, _⟩ :=
      call_delivered hprov hrun hcall randomFail
    intro i inv hi
    rw [hhistory]
    rw [hruns] at hi
    rcases getElem?_set_cases hrun hi with ⟨rfl, rfl⟩ | ⟨hne, hi⟩
    · rw [firstCarried, firstCarried_cons rfl, h i inv0 hrun, hdelivers.adoption]
    · rw [firstCarried_cons (Event.carried_other (Ne.symm hne) _ _ _ _), firstCarried_cons rfl]
      exact h i inv hi
  | @advance run inv0 inv1 hrun hadvance =>
    have hhistory : ∀ i, firstCarried i ((σ.setRun run inv1).noteReturn run inv1).history =
        firstCarried i σ.history := by
      intro i
      unfold noteReturn
      split
      · exact firstCarried_cons rfl _
      · rfl
    intro i inv hi
    rw [hhistory]
    rw [noteReturn_runs] at hi
    rcases getElem?_set_cases hrun hi with ⟨rfl, rfl⟩ | ⟨_, hi⟩
    · rw [h i inv0 hrun]
      cases hadvance <;> rfl
    · exact h i inv hi
  | arrive context randomFail hindex => exact hdelivered.elim

theorem carriedAdopted_of_reachable {setup : System → Prop} {C : System → Action → Prop}
    {σ : System} (hC : ∀ σ act, C σ act → Delivered σ act)
    (h : (paxos setup).Reachable C σ) : CarriedAdopted σ := by
  refine ActionSystem.Reachable.invariant ?_ ?_ h
  · intro σ hinit i inv hi
    simp [hinit.1.runs] at hi
  · intro σ act σ' hreach hcond hstep hcarried
    exact carriedAdopted_step (provenance_of_reachable hreach) hcarried (hC _ _ hcond)
      (step_cases hstep)

/-- The operation of an `Inform` is the first carried one, or the own one. -/
theorem CarriedAdopted.inform {σ : System} (hcarried : CarriedAdopted σ)
    (hprov : Provenance σ) {i : Nat} {inv : Invocation} (hrun : σ.runs[i]? = some inv)
    {a : Addr} {req : InformRequest} (hsent : .sent i a (.inform req) ∈ σ.history) :
    inv.Committed ∧ req.key = inv.key ∧ req.acceptance.operation =
      (firstCarried i σ.history).getD inv.request.setProposeValue := by
  obtain ⟨inv', hrun', hcommitted, rfl, hacceptance⟩ := hprov.sent_inform hsent
  obtain rfl : inv = inv' := Option.some.inj (hrun.symm.trans hrun')
  refine ⟨hcommitted, rfl, ?_⟩
  rw [hcarried i inv hrun, ← inv.proposal_eq, hacceptance]
  rfl

/-! ## Acknowledged requests -/

/-- Every `Inform` of the invocation `run` carries the operation of its own
request. -/
def InformsOwn (σ : System) (run : Nat) (inv : Invocation) : Prop :=
  ∀ (a : Addr) (req : InformRequest), .sent run a (.inform req) ∈ σ.history →
    req.acceptance.operation = inv.request.setProposeValue

/-- An invocation that returned OK informed of its own operation, exactly
when no promise carried it another one first. -/
theorem informsOwn_iff_carried {setup : System → Prop} {σ : System}
    (h : (paxos setup).Reachable Delivered σ) {i : Nat} {inv : Invocation}
    (hrun : σ.runs[i]? = some inv) (hreturned : inv.Returned true) :
    InformsOwn σ i inv ↔
      ∀ op, firstCarried i σ.history = some op → op = inv.request.setProposeValue := by
  have hprov := provenance_of_reachable h
  have hcarried := carriedAdopted_of_reachable (fun _ _ hcond => hcond) h
  constructor
  · intro hown op hop
    -- some live replica was informed
    have hcommitted := Invocation.committed_of_returned hreturned
    have hmaj := ((hprov.wf i inv hrun).committed hcommitted).2.1
    obtain ⟨a, ha⟩ := hmaj.exists_mem
    obtain ⟨reply, changed, hhandled⟩ := informed_of_returned
      (informsLive_of_reachable (fun _ _ hcond => hcond) h) hrun hreturned
      (hmaj.sublist.subset ha)
    have hsent := hprov.handled i a _ reply changed hhandled
    have hinform := (hcarried.inform hprov hrun hsent).2.2
    rw [hop, Option.getD_some] at hinform
    rw [← hinform]
    exact hown a _ hsent
  · intro hfirst a req hsent
    rw [(hcarried.inform hprov hrun hsent).2.2]
    cases hop : firstCarried i σ.history with
    | none => rfl
    | some op => exact hfirst op hop

/-- A `PutPair` on `b` starts before one on `a` for the same key proposes, and
prepares after it.  Both return OK. -/
def adoptedPut : List Action :=
  [.start "a" (.put "k" "x"), .start "b" (.put "k" "y")] ++
    Action.loop 0 3 ++ Action.loop 1 3 ++ Action.loop 0 3 ++ Action.loop 0 3 ++
    Action.loop 1 3 ++ Action.loop 1 3 ++ Action.loop 0 3 ++ Action.loop 1 3

set_option maxRecDepth 10000 in
/-- The second one returns OK and has informed of the value of the first. -/
theorem not_informsOwn_adoptedPut :
    ∃ σ, (paxos (SharesReplicas (.ofReplicas ["a", "b", "c"]))).Reachable Delivered σ ∧
      ∃ inv ∈ σ.runs[1]?, inv.Returned true ∧ ¬ InformsOwn σ 1 inv := by
  have hrun : ∃ σ ∈ (paxos (SharesReplicas (.ofReplicas ["a", "b", "c"]))).execWhere
      Delivered (fresh ["a", "b", "c"]) adoptedPut,
      ∃ inv ∈ σ.runs[1]?, inv.Returned true ∧
        inv.request.setProposeValue ≠ ⟨.set, "x"⟩ ∧
        .sent 1 "a" (.inform ⟨"k", 1, 1, .set, "x"⟩) ∈ σ.history := by
    decide +kernel
  obtain ⟨σ, hreach, inv, hinv, hreturned, hne, hsent⟩ := exists_reachable_fresh hrun
  exact ⟨σ, hreach, inv, hinv, hreturned, fun hown => hne (hown "a" _ hsent).symm⟩

set_option maxRecDepth 10000 in
/-- In the same run the first one informed of its own value. -/
theorem informsOwn_adoptedPut :
    ∃ σ, ∃ inv ∈ σ.runs[0]?, inv.Returned true ∧ InformsOwn σ 0 inv := by
  have hrun : ∃ σ ∈ (paxos (SharesReplicas (.ofReplicas ["a", "b", "c"]))).execWhere
      Delivered (fresh ["a", "b", "c"]) adoptedPut,
      ∃ inv ∈ σ.runs[0]?, inv.Returned true ∧ firstCarried 0 σ.history = none := by
    decide +kernel
  obtain ⟨σ, hreach, inv, hinv, hreturned, hnone⟩ := exists_reachable_fresh hrun
  refine ⟨σ, inv, hinv, hreturned, (informsOwn_iff_carried hreach hinv hreturned).mpr ?_⟩
  intro op hop
  rw [hnone] at hop
  cases hop

/-! ## Refused requests -/

/-- No other invocation on the key that informs was first handed the operation
of `run`. -/
def NotPickedUp (σ : System) (run : Nat) (inv : Invocation) : Prop :=
  ∀ (j : Nat) (other : Invocation), j ≠ run → σ.runs[j]? = some other → other.key = inv.key →
    (∃ a req, .sent j a (.inform req) ∈ σ.history) →
      firstCarried j σ.history ≠ some inv.request.setProposeValue

/-- The operation of `run` can be told from those of the other requests. -/
def Distinct (σ : System) (run : Nat) (inv : Invocation) : Prop :=
  ∀ (j : Nat) (other : Invocation), j ≠ run → σ.runs[j]? = some other →
    other.key = inv.key → other.request.setProposeValue ≠ inv.request.setProposeValue

/-- No `Inform` carries the operation of `inv`, and no replica executed it. -/
def WithoutEffect (σ : System) (inv : Invocation) : Prop :=
  (∀ (j : Nat) (a : Addr) (req : InformRequest), .sent j a (.inform req) ∈ σ.history →
    req.key = inv.key → req.acceptance.operation ≠ inv.request.setProposeValue) ∧
  ∀ (a : Addr) (j : Nat) (req : InformRequest), (j, req) ∈ σ.learned a inv.key →
    req.acceptance.operation ≠ inv.request.setProposeValue

/-- Only what was informed of is executed. -/
theorem withoutEffect_of_informs {σ : System} (hprov : Provenance σ) {inv : Invocation}
    (hinforms : ∀ (j : Nat) (a : Addr) (req : InformRequest),
      .sent j a (.inform req) ∈ σ.history → req.key = inv.key →
        req.acceptance.operation ≠ inv.request.setProposeValue) : σ.WithoutEffect inv := by
  refine ⟨hinforms, fun a j req hlearned => ?_⟩
  obtain ⟨e, he, hlearned⟩ := List.mem_filterMap.mp hlearned
  obtain ⟨reply, changed, rfl, hkey, _⟩ := Event.handled_of_learned hlearned
  exact hinforms j a req (hprov.handled j a _ reply changed he) hkey

/-- An aborted invocation does not inform. -/
theorem Provenance.informer_ne {σ : System} (hprov : Provenance σ) {i j : Nat}
    {inv : Invocation} (hrun : σ.runs[i]? = some inv) (hreturned : inv.Returned false) {a : Addr}
    {req : InformRequest} (hsent : .sent j a (.inform req) ∈ σ.history) :
    j ≠ i ∧ ∃ other, σ.runs[j]? = some other ∧ other.Committed ∧ req.key = other.key ∧
      req.acceptance.round = other.round := by
  obtain ⟨other, hj, hcommitted, rfl, hacceptance⟩ := hprov.sent_inform hsent
  refine ⟨?_, other, hj, hcommitted, rfl, by rw [hacceptance]; rfl⟩
  rintro rfl
  rw [hrun] at hj
  cases hj
  exact Invocation.not_failed_of_committed hcommitted hreturned

/-- An aborted request has an effect if and only if another invocation picks
its operation up. -/
theorem withoutEffect_iff {setup : System → Prop} {σ : System}
    (h : (paxos setup).Reachable Delivered σ) {i : Nat} {inv : Invocation}
    (hrun : σ.runs[i]? = some inv) (hreturned : inv.Returned false)
    (hdistinct : σ.Distinct i inv) : σ.WithoutEffect inv ↔ σ.NotPickedUp i inv := by
  have hprov := provenance_of_reachable h
  have hcarried := carriedAdopted_of_reachable (fun _ _ hcond => hcond) h
  constructor
  · rintro ⟨hinforms, _⟩ j other hji hj hsame ⟨a, req, hsent⟩ hop
    obtain ⟨_, hkey, hinform⟩ := hcarried.inform hprov hj hsent
    rw [hop, Option.getD_some] at hinform
    exact hinforms j a req hsent (hkey.trans hsame) hinform
  · intro hnot
    refine withoutEffect_of_informs hprov fun j a req hsent hkey hop => ?_
    obtain ⟨hji, other, hj, _, hkey', _⟩ := hprov.informer_ne hrun hreturned hsent
    have hsame : other.key = inv.key := hkey'.symm.trans hkey
    have hinform := (hcarried.inform hprov hj hsent).2.2
    cases hop' : firstCarried j σ.history with
    | none =>
      rw [hop', Option.getD_none, hop] at hinform
      exact hdistinct j other hji hj hsame hinform.symm
    | some op =>
      rw [hop', Option.getD_some, hop] at hinform
      exact hnot j other hji hj hsame ⟨a, req, hsent⟩ (by rw [hop', hinform])

/-! ### Runs without a second promise -/

/-- No two invocations share an acceptor's promise for a slot. -/
theorem disjoint_of_reachable {setup : System → Prop} {σ : System}
    (h : (paxos setup).Reachable NoSecondPromise σ) : Apart (fun _ => False) σ := by
  refine ActionSystem.Reachable.invariant ?_ ?_ h
  · intro σ hinit i j inv inv' _ hi
    simp [hinit.1.runs] at hi
  · intro σ act σ' hreach hcond hstep hapart
    refine apart_step (fun _ _ _ hno => hno) (provenance_of_reachable hreach) hapart hcond.1 ?_
      (step_cases hstep)
    rintro run fate randomFail rfl inv hrun receiver todo msg reply inv' _ hphase hreject helse
    have honce := hcond.2 inv hrun
    simp only [PromisesOnce, Invocation.nextCall, hphase] at honce
    exact honce hreject helse

/-- There a slot has one invocation with a majority of promises. -/
theorem eq_of_proposed {stubs : PaxosStubs} {σ : System}
    (h : (paxos (SharesReplicas stubs)).Reachable NoSecondPromise σ) {i j : Nat}
    {inv other : Invocation} (hi : σ.runs[i]? = some inv) (hj : σ.runs[j]? = some other)
    (hkey : other.key = inv.key) (hround : other.round = inv.round) (hproposed : inv.Proposed)
    (hproposed' : other.Proposed) : i = j := by
  have hprov := provenance_of_reachable h
  have hlossless := lossless_of_reachable (fun _ _ hcond => hcond.1) h
  by_contra hne
  obtain ⟨a, ha, ha'⟩ := (hlossless.promises hprov hi hproposed).exists_common_of_same
    (hlossless.promises hprov hj hproposed') stubs.nodup
  exact (disjoint_of_reachable h i j inv other hne hi hj hkey hround a ha ha').elim id id

/-- In every run without a second promise an aborted request has no effect. -/
theorem withoutEffect_of_noSecondPromise {stubs : PaxosStubs} {σ : System}
    (h : (paxos (SharesReplicas stubs)).Reachable NoSecondPromise σ) {i : Nat} {inv : Invocation}
    (hrun : σ.runs[i]? = some inv) (hreturned : inv.Returned false)
    (hdistinct : σ.Distinct i inv) : σ.WithoutEffect inv := by
  have hprov := provenance_of_reachable h
  refine withoutEffect_of_informs hprov fun j a req hsent hkey hop => ?_
  obtain ⟨hji, other, hj, hcommitted, hkey', hround⟩ :=
    hprov.informer_ne hrun hreturned hsent
  -- the operation goes back to a proposer of its own, which is the aborted one
  obtain ⟨m, proposer, hm, hmkey, hmround, hproposed, _, hown⟩ := hprov.inform_from hsent
  obtain rfl : m = i := by
    by_contra hmi
    exact hdistinct m proposer hmi hm (hmkey.trans hkey) (hown.symm.trans hop)
  exact hji (eq_of_proposed h hj hm (hmkey.trans hkey') (hmround.trans hround)
    ((hprov.wf j other hj).proposed_of_committed hcommitted) hproposed)

/-- An aborted request has an effect exactly if another invocation picks its
operation up, and it has none in a run without a second promise. -/
theorem withoutEffect_of_refused {setup : System → Prop} {σ : System}
    (h : (paxos setup).Reachable Delivered σ) {i : Nat} {inv : Invocation}
    (hrun : σ.runs[i]? = some inv) (hreturned : inv.Returned false)
    (hdistinct : σ.Distinct i inv) :
    (σ.WithoutEffect inv ↔ σ.NotPickedUp i inv) ∧
      ∀ stubs, (paxos (SharesReplicas stubs)).Reachable NoSecondPromise σ →
        σ.WithoutEffect inv :=
  ⟨withoutEffect_iff h hrun hreturned hdistinct,
    fun _ honce => withoutEffect_of_noSecondPromise honce hrun hreturned hdistinct⟩

/-- The first `PutPair` is accepted by `a` alone and fails.  The second one
prepares the same round after that. -/
def resurrectedPut : List Action :=
  [.start "a" (.put "k" "x"), .start "b" (.put "k" "y")] ++
    Action.loop 0 3 ++ Action.loop 1 3 ++ Action.loop 0 3 ++
    [.call 0 .delivered false, .call 0 .delivered true, .call 0 .delivered true, .advance 0] ++
    Action.loop 1 3 ++ Action.loop 1 3 ++ Action.loop 1 3

set_option maxRecDepth 10000 in
/-- The value of the aborted request is executed by all three replicas. -/
theorem not_withoutEffect_resurrectedPut :
    ∃ σ, (paxos (SharesReplicas (.ofReplicas ["a", "b", "c"]))).Reachable Delivered σ ∧
      ∃ inv ∈ σ.runs[0]?, inv.Returned false ∧ σ.Distinct 0 inv ∧ ¬ σ.WithoutEffect inv := by
  have hrun : ∃ σ ∈ (paxos (SharesReplicas (.ofReplicas ["a", "b", "c"]))).execWhere
      Delivered (fresh ["a", "b", "c"]) resurrectedPut,
      σ.runs.length = 2 ∧
      (∃ other ∈ σ.runs[1]?, other.request.setProposeValue = ⟨.set, "y"⟩) ∧
      ∃ inv ∈ σ.runs[0]?, inv.Returned false ∧ inv.key = "k" ∧
        inv.request.setProposeValue = ⟨.set, "x"⟩ ∧
        ∀ a ∈ ["a", "b", "c"], (1, ⟨"k", 1, 1, .set, "x"⟩) ∈ σ.learned a "k" := by
    decide +kernel
  obtain ⟨σ, hreach, hlen, ⟨other, hother, hop⟩, inv, hinv, hreturned, hkey, hown, hexecuted⟩ :=
    exists_reachable_fresh hrun
  refine ⟨σ, hreach, inv, hinv, hreturned, ?_, fun hwithout => ?_⟩
  · intro j other' hne hj _ hsame
    have hlt := (List.getElem?_eq_some_iff.mp hj).1
    have hj1 : j = 1 := by omega
    subst hj1
    rw [hother] at hj
    cases hj
    rw [hop, hown] at hsame
    exact absurd hsame (by decide)
  · have hmem := hexecuted "a" (by simp)
    rw [← hkey] at hmem
    exact hwithout.2 "a" _ _ hmem hown.symm

/-- The first `PutPair` gets the promises of `a` and `b`, is accepted by `c`
alone and fails.  The second one gets the promise of `c` for the same round. -/
def carriedPut : List Action :=
  [.start "a" (.put "k" "x"), .start "b" (.put "k" "y")] ++
    Action.loop 0 3 ++ Action.loop 1 3 ++
    [.call 0 .delivered false, .call 0 .delivered false, .call 0 .delivered true, .advance 0] ++
    [.call 0 .delivered true, .call 0 .delivered true, .call 0 .delivered false, .advance 0] ++
    [.call 1 .delivered true, .call 1 .delivered true, .call 1 .delivered false, .advance 1]

set_option maxRecDepth 10000 in
/-- It is handed the operation of the first one, but finds no majority. -/
theorem withoutEffect_carriedPut :
    ∃ σ : System, firstCarried 1 σ.history = some ⟨.set, "x"⟩ ∧
      ∃ inv ∈ σ.runs[0]?, inv.request.setProposeValue = ⟨.set, "x"⟩ ∧ inv.Returned false ∧
        σ.NotPickedUp 0 inv ∧ σ.WithoutEffect inv := by
  have hrun : ∃ σ ∈ (paxos (SharesReplicas (.ofReplicas ["a", "b", "c"]))).execWhere
      NoSecondPromise (fresh ["a", "b", "c"]) carriedPut,
      σ.runs.length = 2 ∧ firstCarried 1 σ.history = some ⟨.set, "x"⟩ ∧
      (∃ other ∈ σ.runs[1]?, other.request.setProposeValue = ⟨.set, "y"⟩) ∧
      ∃ inv ∈ σ.runs[0]?, inv.Returned false ∧
        inv.request.setProposeValue = ⟨.set, "x"⟩ := by
    decide +kernel
  obtain ⟨σ, hreach, hlen, hcarried, ⟨other, hother, hop⟩, inv, hinv, hreturned, hown⟩ :=
    exists_reachable_fresh hrun
  have hdistinct : σ.Distinct 0 inv := by
    intro j other' hne hj _ hsame
    have hlt := (List.getElem?_eq_some_iff.mp hj).1
    obtain rfl : j = 1 := by omega
    rw [hother] at hj
    cases hj
    rw [hop, hown] at hsame
    exact absurd hsame (by decide)
  obtain ⟨hiff, hwithout⟩ := withoutEffect_of_refused (hreach.mono fun _ _ hcond => hcond.1)
    hinv hreturned hdistinct
  have heffect := hwithout _ hreach
  exact ⟨σ, hcarried, inv, hinv, hown, hreturned, hiff.mp heffect, heffect⟩

end System

end PaxosKVStore
