import PaxosKVStore.Delivery

/-!
# Agreement of the informs of one key and round

`InformsAgree` is the agreement property of Paxos: two `Inform` requests for
one key and round carry the same operation.

The comment of `Prepare` says that it refuses a proposal id that was promised
before, but no code path records a promise: `AddPaxosLog(key, round)` only
creates the log.  Two overlapping invocations that chose the same round can
therefore both collect promises from all acceptors, both adopt nothing, and
inform of different operations.

`KeepsPromises` is the condition on a step that rules this out: an acceptor
that promised the slot to another invocation answers a further `Prepare` with
OK only if it can hand out an acceptance.  In every run of such steps the
informs agree.  The invariant is `PromisesApart`: two invocations that share
an acceptor's promise for one slot cannot both be without an adopted
acceptance.  With the overlap of two majorities this leaves one invocation
per slot that proposes its own operation, and every acceptance, adoption and
inform of the slot goes back to it.

`NoSecondPromise` is the stricter condition that an acceptor promises a slot
to one invocation, whether or not it has an acceptance to hand out.
-/

namespace PaxosKVStore

open MultiPaxosServiceImpl (Rejects)

namespace System

/-- Two `Inform` requests for one key and round carry the same operation. -/
def InformsAgree (σ : System) : Prop :=
  ∀ (i j : Nat) (a b : Addr) (req req' : InformRequest),
    .sent i a (.inform req) ∈ σ.history → .sent j b (.inform req') ∈ σ.history →
    req.key = req'.key → req.acceptance.round = req'.acceptance.round →
    req.acceptance.type = req'.acceptance.type ∧ req.acceptance.value = req'.acceptance.value

/-! ## The condition on a step -/

/-- `addr` has promised the slot of the invocation `run` to another one. -/
def PromisedElsewhere (σ : System) (run : Nat) (inv : Invocation) (addr : Addr) : Prop :=
  ∃ other ∈ σ.runs.eraseIdx run,
    other.key = inv.key ∧ other.round = inv.round ∧ addr ∈ other.promisedBy

instance (σ : System) (run : Nat) (inv : Invocation) (addr : Addr) :
    Decidable (σ.PromisedElsewhere run inv addr) :=
  inferInstanceAs (Decidable (∃ other ∈ σ.runs.eraseIdx run,
    other.key = inv.key ∧ other.round = inv.round ∧ addr ∈ other.promisedBy))

/-- If the next call of the invocation is a `Prepare` that does not fail at
random, and its receiver has promised the slot elsewhere, then the receiver
has an acceptance to hand out. -/
def KeepsPromise (σ : System) (run : Nat) (inv : Invocation) (randomFail : Bool) : Prop :=
  match inv.nextCall with
  | some (addr, .prepare _) =>
      ¬ Rejects inv.key randomFail → σ.PromisedElsewhere run inv addr →
        0 < ((σ.db addr).paxosLog inv.key inv.round).acceptedId
  | _ => True

instance (σ : System) (run : Nat) (inv : Invocation) (randomFail : Bool) :
    Decidable (σ.KeepsPromise run inv randomFail) := by
  unfold KeepsPromise
  split <;> infer_instance

/-- Every invocation that this step moves keeps the promises. -/
def KeepsPromises (σ : System) : Action → Prop
  | .call run _ randomFail => ∀ inv ∈ σ.runs[run]?, σ.KeepsPromise run inv randomFail
  | _ => True

instance (σ : System) (act : Action) : Decidable (σ.KeepsPromises act) :=
  match act with
  | .start .. => isTrue trivial
  | .call run _ randomFail =>
      inferInstanceAs (Decidable (∀ inv ∈ σ.runs[run]?, σ.KeepsPromise run inv randomFail))
  | .advance _ => isTrue trivial
  | .arrive .. => isTrue trivial

/-- If the next call of the invocation is a `Prepare` that does not fail at
random, its receiver has not promised the slot to another invocation. -/
def PromisesOnce (σ : System) (run : Nat) (inv : Invocation) (randomFail : Bool) : Prop :=
  match inv.nextCall with
  | some (addr, .prepare _) => ¬ Rejects inv.key randomFail → ¬ σ.PromisedElsewhere run inv addr
  | _ => True

instance (σ : System) (run : Nat) (inv : Invocation) (randomFail : Bool) :
    Decidable (σ.PromisesOnce run inv randomFail) := by
  unfold PromisesOnce
  split <;> infer_instance

/-- The step delivers its call, and gives no second promise. -/
def NoSecondPromise (σ : System) (act : Action) : Prop :=
  Delivered σ act ∧
    match act with
    | .call run _ randomFail => ∀ inv ∈ σ.runs[run]?, σ.PromisesOnce run inv randomFail
    | _ => True

instance (σ : System) (act : Action) : Decidable (NoSecondPromise σ act) := by
  unfold NoSecondPromise
  cases act <;> infer_instance

/-! ## One proposer of its own operation per slot -/

/-- Invocations that share an acceptor's promise for a slot are not both
without an adopted acceptance. -/
def PromisesApart (σ : System) : Prop :=
  ∀ (i j : Nat) (inv inv' : Invocation), i ≠ j → σ.runs[i]? = some inv →
    σ.runs[j]? = some inv' → inv'.key = inv.key → inv'.round = inv.round →
    ∀ a ∈ inv.promisedBy, a ∈ inv'.promisedBy → 0 < inv.acceptedId ∨ 0 < inv'.acceptedId

/-- Of two invocations that share an acceptor's promise for a slot, one meets
`E`. -/
def Apart (E : Invocation → Prop) (σ : System) : Prop :=
  ∀ (i j : Nat) (inv inv' : Invocation), i ≠ j → σ.runs[i]? = some inv →
    σ.runs[j]? = some inv' → inv'.key = inv.key → inv'.round = inv.round →
    ∀ a ∈ inv.promisedBy, a ∈ inv'.promisedBy → E inv ∨ E inv'

section Apart

variable {E : Invocation → Prop}
  (hgrows : ∀ inv inv', (0 < inv.acceptedId → 0 < inv'.acceptedId) → E inv → E inv')
include hgrows

/-- The new promise of an invocation, against another invocation. -/
theorem Delivers.apart {σ : System} {run j : Nat} {inv inv' other : Invocation}
    {receiver : Addr} {randomFail : Bool} {msg : Message} {reply : Reply}
    (hne : j ≠ run) (hother : σ.runs[j]? = some other)
    (hkeeps : ∀ todo, inv.phase = .prepare (receiver :: todo) → ¬ Rejects inv.key randomFail →
      σ.PromisedElsewhere run inv receiver → E inv')
    (hdelivers : σ.Delivers inv receiver randomFail msg reply inv')
    (hkey : other.key = inv.key) (hround : other.round = inv.round) {a : Addr}
    (ha : a ∈ inv'.promisedBy) (hold : a ∈ inv.promisedBy → E inv ∨ E other)
    (hthere : a ∈ other.promisedBy) : E inv' ∨ E other := by
  have hlate : a ∈ inv.promisedBy → E inv' ∨ E other :=
    fun h => (hold h).imp_left (hgrows _ _ hdelivers.adopted)
  -- the receiver had promised the slot to `other`
  have hnew : ∀ todo, inv.phase = .prepare (receiver :: todo) → ¬ Rejects inv.key randomFail →
      a ∈ inv.promisedBy ++ [receiver] → E inv' ∨ E other := by
    intro todo hphase hreject ha
    rcases List.mem_append.mp ha with ha | ha
    · exact hlate ha
    · rw [List.mem_singleton] at ha
      subst ha
      exact Or.inl (hkeeps todo hphase hreject
        ⟨other, List.mem_eraseIdx_iff_getElem?.mpr ⟨j, hne, hother⟩, hkey, hround, hthere⟩)
  cases hdelivers with
  | promise hphase hok hreject hlog hid => exact hnew _ hphase hreject ha
  | adopt hphase hok hreject hlog hid hop hnone => exact hnew _ hphase hreject ha
  | keep hphase hok hreject hlog hid hone => exact hnew _ hphase hreject ha
  | ping hphase => exact hlate ha
  | refuse hphase hno hreject => exact hlate ha
  | reject hphase hno hreject => exact hlate ha
  | accept hphase hok => exact hlate ha
  | inform hphase hiff => exact hlate ha

theorem apart_step {σ σ' : System} {act : Action} (hprov : Provenance σ) (h : Apart E σ)
    (hdelivered : Delivered σ act)
    (hkeeps : ∀ run fate randomFail, act = .call run fate randomFail →
      ∀ inv ∈ σ.runs[run]?, ∀ receiver todo msg reply inv',
        σ.Delivers inv receiver randomFail msg reply inv' →
        inv.phase = .prepare (receiver :: todo) → ¬ Rejects inv.key randomFail →
        σ.PromisedElsewhere run inv receiver → E inv')
    (hstep : StepCases σ act σ') : Apart E σ' := by
  cases hstep with
  | refuse hrefusal => exact h
  | enter hrefusal =>
    -- the new invocation has no promise yet
    intro i j inv inv' hne hi hj hkey hround a ha ha'
    rcases getElem?_snoc_cases hi with ⟨_, rfl⟩ | hi
    · cases ha
    · rcases getElem?_snoc_cases hj with ⟨_, rfl⟩ | hj
      · cases ha'
      · exact h i j inv inv' hne hi hj hkey hround a ha ha'
  | @call run inv0 receiver msg fate randomFail hrun hcall =>
    cases hdelivered
    obtain ⟨reply, inv1, hdelivers, hruns, _⟩ :=
      call_delivered hprov hrun hcall randomFail
    have hkeep := fun todo => hkeeps run .delivered randomFail rfl inv0 hrun receiver todo msg
      reply inv1 hdelivers
    intro i j inv inv' hne hi hj hkey hround a ha ha'
    rw [hruns] at hi hj
    rcases getElem?_set_cases hrun hi with ⟨rfl, rfl⟩ | ⟨hne', hold⟩
    · rcases getElem?_set_cases hrun hj with ⟨hj', _⟩ | ⟨hj', hother⟩
      · exact absurd hj'.symm hne
      · rw [hdelivers.key] at hkey
        rw [hdelivers.round] at hround
        refine hdelivers.apart hgrows hj' hother hkeep hkey hround ha (fun hby => ?_) ha'
        exact h i j inv0 inv' hne hrun hother hkey hround a hby ha'
    · rcases getElem?_set_cases hrun hj with ⟨rfl, rfl⟩ | ⟨_, hother⟩
      · rw [hdelivers.key] at hkey
        rw [hdelivers.round] at hround
        refine (hdelivers.apart hgrows hne' hold hkeep hkey.symm hround.symm ha'
          (fun hby => ?_) ha).symm
        exact (h i j inv inv0 hne hold hrun hkey hround a ha hby).symm
      · exact h i j inv inv' hne hold hother hkey hround a ha ha'
  | @advance run inv0 inv1 hrun hadvance =>
    have hsame : inv1.promisedBy = inv0.promisedBy ∧ inv1.acceptedId = inv0.acceptedId ∧
        inv1.key = inv0.key ∧ inv1.round = inv0.round := by
      cases hadvance <;> exact ⟨rfl, rfl, rfl, rfl⟩
    obtain ⟨hby, hid, hk, hr⟩ := hsame
    have hmoved : E inv0 → E inv1 := hgrows inv0 inv1 (by simp [hid])
    intro i j inv inv' hne hi hj hkey hround a ha ha'
    rw [noteReturn_runs] at hi hj
    rcases getElem?_set_cases hrun hi with ⟨rfl, rfl⟩ | ⟨hne', hold⟩
    · rcases getElem?_set_cases hrun hj with ⟨hj', _⟩ | ⟨hj', hother⟩
      · exact absurd hj'.symm hne
      · rw [hk] at hkey
        rw [hr] at hround
        rw [hby] at ha
        exact (h i j inv0 inv' hne hrun hother hkey hround a ha ha').imp_left hmoved
    · rcases getElem?_set_cases hrun hj with ⟨rfl, rfl⟩ | ⟨_, hother⟩
      · rw [hk] at hkey
        rw [hr] at hround
        rw [hby] at ha'
        exact (h i j inv inv0 hne hold hrun hkey hround a ha ha').imp_right hmoved
      · exact h i j inv inv' hne hold hother hkey hround a ha ha'
  | arrive context randomFail hindex => exact hdelivered.elim

end Apart

/-- A second promise for a slot hands out an acceptance. -/
theorem promisesApart_step {σ σ' : System} {act : Action} (hprov : Provenance σ)
    (h : PromisesApart σ) (hdelivered : Delivered σ act) (hkeeps : σ.KeepsPromises act)
    (hstep : StepCases σ act σ') : PromisesApart σ' := by
  refine apart_step (E := fun inv => 0 < inv.acceptedId) (fun _ _ hgrows => hgrows) hprov h
    hdelivered ?_ hstep
  rintro run fate randomFail rfl inv hrun receiver todo msg reply inv' hdelivers hphase hreject
    helse
  have hkeep := hkeeps inv hrun
  simp only [KeepsPromise, Invocation.nextCall, hphase] at hkeep
  have hpos := hkeep hreject helse
  cases hdelivers with
  | promise hphase' hok _ hlog hid => omega
  | adopt hphase' hok _ hlog hid hop hnone => simp [hid]
  | keep hphase' hok _ hlog hid hone => simp [hone]
  | refuse hphase' hno hreject' => exact absurd hreject' hreject
  | ping hphase' => simp [hphase] at hphase'
  | reject hphase' hno hreject' => simp [hphase] at hphase'
  | accept hphase' hok => simp [hphase] at hphase'
  | inform hphase' hiff => simp [hphase] at hphase'

/-- The steps of the agreement theorem. -/
def Agreeable (σ : System) (act : Action) : Prop :=
  Delivered σ act ∧ σ.KeepsPromises act

instance (σ : System) (act : Action) : Decidable (Agreeable σ act) :=
  inferInstanceAs (Decidable (_ ∧ _))

theorem promisesApart_of_reachable {setup : System → Prop} {C : System → Action → Prop}
    {σ : System} (hC : ∀ σ act, C σ act → Agreeable σ act)
    (h : (paxos setup).Reachable C σ) : PromisesApart σ := by
  refine ActionSystem.Reachable.invariant ?_ ?_ h
  · intro σ hinit i j inv inv' _ hi
    simp [hinit.1.runs] at hi
  · intro σ act σ' hreach hcond hstep hapart
    obtain ⟨hdelivered, hkeeps⟩ := hC _ _ hcond
    exact promisesApart_step (provenance_of_reachable hreach) hapart hdelivered hkeeps
      (step_cases hstep)

/-- An invocation that proposes has the promises of a majority of the list. -/
theorem Lossless.promises {stubs : PaxosStubs} {σ : System} (h : Lossless stubs σ)
    (hprov : Provenance σ) {i : Nat} {inv : Invocation} (hi : σ.runs[i]? = some inv)
    (hproposed : inv.Proposed) : Majority.IsMajority inv.promisedBy stubs.addrs := by
  rw [← (h.sees i inv hi).live hproposed]
  exact (hprov.wf i inv hi).promises hproposed

/-- What is accepted, adopted or informed for a slot is one operation. -/
theorem ProposalFrom.unique {stubs : PaxosStubs} {σ : System} (hprov : Provenance σ)
    (hlossless : Lossless stubs σ) (hapart : PromisesApart σ) {key : String} {round : Int}
    {op op' : Operation} (h : σ.ProposalFrom key round op)
    (h' : σ.ProposalFrom key round op') : op = op' := by
  obtain ⟨i, inv, hi, rfl, rfl, hproposed, hown, rfl⟩ := h
  obtain ⟨j, inv', hj, hkey, hround, hproposed', hown', rfl⟩ := h'
  by_cases hne : i = j
  · subst hne
    rw [hi] at hj
    cases hj
    rfl
  · -- the two majorities of promises share an acceptor
    obtain ⟨a, ha, ha'⟩ := (hlossless.promises hprov hi hproposed).exists_common_of_same
      (hlossless.promises hprov hj hproposed') stubs.nodup
    have := hapart i j inv inv' hne hi hj hkey hround a ha ha'
    omega

/-- The operation of a sent `Inform` goes back to the slot's proposer. -/
theorem Provenance.inform_from {σ : System} (hprov : Provenance σ) {i : Nat} {a : Addr}
    {req : InformRequest} (h : .sent i a (.inform req) ∈ σ.history) :
    σ.ProposalFrom req.key req.acceptance.round req.acceptance.operation := by
  obtain ⟨inv, hrun, hcommitted, rfl, hacceptance⟩ := hprov.sent_inform h
  rw [hacceptance]
  exact proposalFrom_proposal hrun (hprov.adopted i inv hrun)
    ((hprov.wf i inv hrun).proposed_of_committed hcommitted)

/-- In every run that keeps the promises, the informs of one key and round
agree. -/
theorem informsAgree_of_reachable {stubs : PaxosStubs} {σ : System}
    (h : (paxos (SharesReplicas stubs)).Reachable Agreeable σ) : InformsAgree σ := by
  intro i j a b req req' hsent hsent' hkey hround
  have hprov := provenance_of_reachable h
  have hlossless := lossless_of_reachable (fun _ _ hcond => hcond.1) h
  have hapart := promisesApart_of_reachable (fun _ _ hcond => hcond) h
  have hfrom := hprov.inform_from hsent
  have hfrom' := hprov.inform_from hsent'
  rw [← hkey, ← hround] at hfrom'
  have hop := ProposalFrom.unique hprov hlossless hapart hfrom hfrom'
  simp only [AcceptResponse.operation, Operation.mk.injEq] at hop
  exact hop

/-- Two overlapping `PutPair` requests for one key, on servers `a` and `b` of
three, chose the same round.  `b` prepares after `a` collected its promises
and before `a` proposes. -/
def overlappingPuts : List Action :=
  [.start "a" (.put "k" "x"), .start "b" (.put "k" "y")] ++
    Action.loop 0 3 ++ Action.loop 1 3 ++ Action.loop 0 3 ++ Action.loop 1 3 ++
    Action.loop 0 3 ++ Action.loop 1 3 ++ Action.calls 0 1 ++ Action.calls 1 1

set_option maxRecDepth 10000 in
/-- Both of them inform, of different values. -/
theorem informs_differ :
    ∃ σ, (paxos (SharesReplicas (.ofReplicas ["a", "b", "c"]))).Reachable Delivered σ ∧
      ¬ InformsAgree σ := by
  have hrun : ∃ σ ∈ (paxos (SharesReplicas (.ofReplicas ["a", "b", "c"]))).execWhere
      Delivered (fresh ["a", "b", "c"]) overlappingPuts,
      .sent 0 "a" (.inform ⟨"k", 1, 1, .set, "x"⟩) ∈ σ.history ∧
        .sent 1 "a" (.inform ⟨"k", 1, 1, .set, "y"⟩) ∈ σ.history := by
    decide +kernel
  obtain ⟨σ, hreach, hx, hy⟩ := exists_reachable_fresh hrun
  refine ⟨σ, hreach, fun hagree => ?_⟩
  have hvalue := (hagree 0 1 "a" "a" _ _ hx hy rfl rfl).2
  exact absurd hvalue (by decide)

/-- The same two requests, where `b` prepares after `a` has proposed. -/
def followingPuts : List Action :=
  [.start "a" (.put "k" "x"), .start "b" (.put "k" "y")] ++
    Action.loop 0 3 ++ Action.loop 1 3 ++ Action.loop 0 3 ++ Action.loop 0 3 ++
    Action.loop 1 3 ++ Action.loop 1 3 ++ Action.calls 0 1 ++ Action.calls 1 1

set_option maxRecDepth 10000 in
/-- There the acceptors keep their promises, and the informs agree. -/
theorem informsAgree_followingPuts :
    ∃ σ, (∃ req req', .sent 0 "a" (.inform req) ∈ σ.history ∧
        .sent 1 "a" (.inform req') ∈ σ.history) ∧ InformsAgree σ := by
  have hrun : ∃ σ ∈ (paxos (SharesReplicas (.ofReplicas ["a", "b", "c"]))).execWhere
      Agreeable (fresh ["a", "b", "c"]) followingPuts,
      .sent 0 "a" (.inform ⟨"k", 1, 1, .set, "x"⟩) ∈ σ.history ∧
        .sent 1 "a" (.inform ⟨"k", 1, 1, .set, "x"⟩) ∈ σ.history := by
    decide +kernel
  obtain ⟨σ, hreach, hx, hy⟩ := exists_reachable_fresh hrun
  exact ⟨σ, ⟨_, _, hx, hy⟩, informsAgree_of_reachable hreach⟩

end System

end PaxosKVStore
