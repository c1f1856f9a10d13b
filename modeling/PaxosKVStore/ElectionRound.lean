import PaxosKVStore.Candidates

/-!
# Overlapping elections of one round

When the coordinator is gone, each server that holds a request nominates
itself, often for the same round.  The elections of a round agree unless two
of them get its first promise from one acceptor.  No promise is recorded, so
an acceptor can give it twice; `PromisesKept` is the condition on a step that
it does so only when a live server holds an acceptance for the round.

Until there is such an acceptance, one election at most has promises
(`Undecided`).  From the first acceptance on, there is a server that every
election asks before it proposes, and all of them propose what it holds
(`Settled`).
-/

namespace PaxosKVStore

open Invocation (reached)

namespace System

/-- What a server holds as accepted for a round on the reserved key. -/
def electedAt (σ : System) (a : Addr) (r : Int) : Option Operation :=
  ((σ.db a).paxosLog "coordinator" r).accepted

/-! ## The condition on a step -/

/-- The next call of the election `run` is a `Prepare` for the round `R`, to a
server that has promised this round to another election. -/
def PromisesAgain (n : Nat) (R : Int) (σ : System) (run : Nat) (inv : Invocation) : Prop :=
  match inv.nextCall with
  | some (addr, .prepare _) =>
      inv.round = R ∧ ∃ other ∈ (σ.runs.drop n).eraseIdx (run - n),
        other.round = R ∧ addr ∈ other.promisedBy
  | _ => False

instance (n : Nat) (R : Int) (σ : System) (run : Nat) (inv : Invocation) :
    Decidable (σ.PromisesAgain n R run inv) :=
  match hcall : inv.nextCall with
  | some (addr, .prepare _) =>
      decidable_of_iff (inv.round = R ∧ ∃ other ∈ (σ.runs.drop n).eraseIdx (run - n),
        other.round = R ∧ addr ∈ other.promisedBy) (by rw [PromisesAgain, hcall])
  | some (_, .ping) => isFalse (by simp [PromisesAgain, hcall])
  | some (_, .propose _) => isFalse (by simp [PromisesAgain, hcall])
  | some (_, .inform _) => isFalse (by simp [PromisesAgain, hcall])
  | none => isFalse (by simp [PromisesAgain, hcall])

/-- The round `R` is promised again only when a live server holds an acceptance
for it. -/
def PromisesKept (live : List Addr) (n : Nat) (R : Int) (σ : System) : Action → Prop
  | .call run .delivered _ => ∀ inv ∈ σ.runs[run]?, σ.PromisesAgain n R run inv →
      ∃ b ∈ live, σ.electedAt b R ≠ none
  | _ => True

instance (live : List Addr) (n : Nat) (R : Int) (σ : System) :
    ∀ act, Decidable (σ.PromisesKept live n R act)
  | .call run .delivered _ =>
      inferInstanceAs (Decidable (∀ inv ∈ σ.runs[run]?, σ.PromisesAgain n R run inv →
        ∃ b ∈ live, σ.electedAt b R ≠ none))
  | .call _ .lost _ => isTrue trivial
  | .call _ .replyLost _ => isTrue trivial
  | .start .. => isTrue trivial
  | .advance _ => isTrue trivial
  | .arrive .. => isTrue trivial

variable {live : List Addr} {stubs : PaxosStubs} {n : Nat} {R : Int} {σ σ' : System}
  {act : Action}

theorem promisesAgain_of {run j : Nat} {inv other : Invocation} {addr : Addr}
    {todo : List Addr} (hn : n ≤ run) (hphase : inv.phase = .prepare (addr :: todo))
    (hround : inv.round = R) (hj : n ≤ j) (hne : j ≠ run) (hother : σ.runs[j]? = some other)
    (hround' : other.round = R) (hmem : addr ∈ other.promisedBy) :
    σ.PromisesAgain n R run inv := by
  simp only [PromisesAgain, Invocation.nextCall, hphase]
  refine ⟨hround, other, ?_, hround', hmem⟩
  refine List.mem_eraseIdx_iff_getElem?.mpr ⟨j - n, by omega, ?_⟩
  rw [List.getElem?_drop, show n + (j - n) = j by omega]
  exact hother

/-! ## The elections of one round -/

/-- No server that is reached holds an acceptance for the round, and at most
one election has promises for it. -/
structure Undecided (live : List Addr) (stubs : PaxosStubs) (n : Nat) (R : Int) (σ : System) :
    Prop where
  empty : ∀ a ∈ reached live stubs.addrs, σ.electedAt a R = none
  fresh : ∀ (i : Nat) (inv : Invocation), n ≤ i → σ.runs[i]? = some inv → inv.round = R →
    inv.acceptedId = 0 ∧ inv.acceptedBy = []
  first : ∀ (i j : Nat) (inv inv' : Invocation), n ≤ i → n ≤ j → i ≠ j →
    σ.runs[i]? = some inv → σ.runs[j]? = some inv' → inv.round = R → inv'.round = R →
    inv.promisedBy = [] ∨ inv'.promisedBy = []

/-- The server `a` holds `op` for the round, and no server that is reached
before it holds anything else.  An election that is past `a` has adopted `op`
or proposes it as its own. -/
structure Settled (live : List Addr) (stubs : PaxosStubs) (n : Nat) (R : Int) (op : Operation)
    (pre : List Addr) (a : Addr) (post : List Addr) (σ : System) : Prop where
  split : reached live stubs.addrs = pre ++ a :: post
  here : σ.electedAt a R = some op
  before : ∀ b ∈ pre, σ.electedAt b R = none ∨ σ.electedAt b R = some op
  adopted : ∀ (i : Nat) (inv : Invocation), n ≤ i → σ.runs[i]? = some inv → inv.round = R →
    0 < inv.acceptedId → inv.acceptedOperation = op
  own : ∀ (i : Nat) (inv : Invocation), n ≤ i → σ.runs[i]? = some inv → inv.round = R →
    ¬ 0 < inv.acceptedId →
    a ∉ inv.promisedBy ∨ inv.Proposed ∧ inv.request.setProposeValue = op

/-- Who proposes for a settled round proposes its operation. -/
theorem Settled.proposal {op : Operation} {pre post : List Addr} {a : Addr}
    (h : Settled live stubs n R op pre a post σ) {i : Nat} {inv : Invocation} (hn : n ≤ i)
    (hi : σ.runs[i]? = some inv) (hround : inv.round = R)
    (hcourse : inv.OnCourse live stubs.addrs) (hproposed : inv.Proposed) :
    inv.proposal = op := by
  unfold Invocation.proposal
  split
  · exact h.adopted i inv hn hi hround ‹_›
  · rcases h.own i inv hn hi hround ‹_› with hnot | ⟨_, hown⟩
    · rw [hcourse.promisedBy hproposed, h.split] at hnot
      exact absurd (by simp) hnot
    · exact hown

/-- What is accepted for the round after a call of an election. -/
theorem electedAt_deliver {inv : Invocation} {run : Nat} {receiver : Addr} {msg : Message}
    {randomFail : Bool} (hprov : Provenance σ) (hrun : σ.runs[run]? = some inv)
    (hcall : inv.Calls receiver msg) (hkey : inv.key = "coordinator")
    (hservers : σ'.servers = Function.update σ.servers receiver
      ((σ.servers receiver).handle {} randomFail msg).2) (b : Addr) :
    σ'.electedAt b R =
      if b = receiver ∧ inv.Proposed ∧ inv.round = R then some inv.proposal
      else σ.electedAt b R := by
  rw [electedAt, db, hservers]
  by_cases hb : b = receiver
  · subst hb
    rw [Function.update_self, accepted_of_calls hprov hrun hcall hkey]
    simp only [true_and, eq_comm, electedAt]
  · rw [Function.update_of_ne hb, if_neg (fun h => hb h.1)]
    rfl

theorem electedAt_of_unchanged {b : Addr} (h : Unchanged (σ.servers b) (σ'.servers b)) :
    σ'.electedAt b R = σ.electedAt b R := by
  have hlog := h.log "coordinator" R
  exact congrArg PaxosLog.accepted hlog

/-! ## Steps that reach no server -/

/-- A move that collects nothing. -/
structure Collects (inv inv' : Invocation) : Prop where
  promisedBy : inv'.promisedBy = inv.promisedBy
  acceptedBy : inv'.acceptedBy = inv.acceptedBy
  acceptedId : inv'.acceptedId = inv.acceptedId
  operation : inv'.acceptedOperation = inv.acceptedOperation
  evolves : inv.Evolves inv'

theorem Collects.refl (inv : Invocation) : Collects inv inv := ⟨rfl, rfl, rfl, rfl, .refl inv⟩

/-- The step changes no acceptance, and each of its elections has collected
nothing new. -/
structure Quiet (n : Nat) (R : Int) (σ σ' : System) : Prop where
  elected : ∀ b, σ'.electedAt b R = σ.electedAt b R
  runs : ∀ (i : Nat) (inv' : Invocation), n ≤ i → σ'.runs[i]? = some inv' →
    (inv'.promisedBy = [] ∧ inv'.acceptedBy = [] ∧ inv'.acceptedId = 0) ∨
      ∃ inv, σ.runs[i]? = some inv ∧ Collects inv inv'

theorem Quiet.of_set {run : Nat} {inv inv' : Invocation} (hrun : σ.runs[run]? = some inv)
    (hcollects : Collects inv inv') (hruns : σ'.runs = σ.runs.set run inv')
    (hservers : σ'.servers = σ.servers) : Quiet n R σ σ' where
  elected b := by rw [electedAt, db, hservers]; rfl
  runs i other hn hi := by
    rw [hruns] at hi
    rcases getElem?_set_cases hrun hi with ⟨rfl, rfl⟩ | ⟨_, hi⟩
    · exact Or.inr ⟨inv, hrun, hcollects⟩
    · exact Or.inr ⟨other, hi, .refl other⟩

/-- Every step of the elections is quiet, or it delivers a call. -/
theorem ElectsCases.quiet_or (hprov : Provenance σ) (h : ElectsCases live n σ act σ') :
    Quiet n R σ σ' ∨ ∃ run inv inv' receiver msg reply randomFail,
      act = .call run .delivered randomFail ∧ n ≤ run ∧ σ.runs[run]? = some inv ∧
      receiver ∈ live ∧ inv.Calls receiver msg ∧
      σ.Delivers inv receiver randomFail msg reply inv' ∧ inv.Evolves inv' ∧
      σ'.runs = σ.runs.set run inv' ∧ σ'.servers = Function.update σ.servers receiver
        ((σ.servers receiver).handle {} randomFail msg).2 := by
  cases h with
  | refuse hruns hservers =>
    refine Or.inl ⟨fun b => by rw [electedAt, db, hservers]; rfl, fun i inv' hn hi => ?_⟩
    rw [hruns] at hi
    exact Or.inr ⟨inv', hi, .refl inv'⟩
  | enter hlive hruns hservers =>
    refine Or.inl ⟨fun b => electedAt_of_unchanged (hservers b), fun i inv' hn hi => ?_⟩
    rw [hruns] at hi
    rcases getElem?_snoc_cases hi with ⟨_, rfl⟩ | hi
    · exact Or.inl ⟨rfl, rfl, rfl⟩
    · exact Or.inr ⟨inv', hi, .refl inv'⟩
  | deliver randomFail hn hrun hlive hcall hdelivers hevolves hruns hservers =>
    exact Or.inr ⟨_, _, _, _, _, _, randomFail, rfl, hn, hrun, hlive, hcall, hdelivers,
      hevolves, hruns, hservers⟩
  | @lose _ _ run inv receiver msg hn hrun hdead hcall hruns hservers =>
    have hcollects : Collects inv { inv with phase := inv.phase.tail } :=
      ⟨rfl, rfl, rfl, rfl, .receives (.ofLost hcall)⟩
    exact Or.inl (.of_set hrun hcollects hruns hservers)
  | advance hn hrun hadvance hruns hservers =>
    have hevolves := Invocation.Evolves.advances (hprov.wf _ _ hrun) hadvance
    refine Or.inl (.of_set hrun ?_ hruns hservers)
    cases hadvance <;> exact ⟨rfl, rfl, rfl, rfl, hevolves⟩

theorem Undecided.quiet (h : Undecided live stubs n R σ) (hquiet : Quiet n R σ σ') :
    Undecided live stubs n R σ' where
  empty a ha := (hquiet.elected a).trans (h.empty a ha)
  fresh i inv' hn hi hround := by
    rcases hquiet.runs i inv' hn hi with ⟨_, haccepted, hid⟩ | ⟨inv, hold, hcollects⟩
    · exact ⟨hid, haccepted⟩
    · rw [hcollects.acceptedId, hcollects.acceptedBy]
      exact h.fresh i inv hn hold (hcollects.evolves.round.symm.trans hround)
  first i j inv' inv1' hn hn1 hne hi hj hround hround1 := by
    rcases hquiet.runs i inv' hn hi with ⟨hpromised, _⟩ | ⟨inv, hold, hcollects⟩
    · exact Or.inl hpromised
    · rcases hquiet.runs j inv1' hn1 hj with ⟨hpromised, _⟩ | ⟨inv1, hold1, hcollects1⟩
      · exact Or.inr hpromised
      · rw [hcollects.promisedBy, hcollects1.promisedBy]
        exact h.first i j inv inv1 hn hn1 hne hold hold1
          (hcollects.evolves.round.symm.trans hround)
          (hcollects1.evolves.round.symm.trans hround1)

theorem Settled.quiet {op : Operation} {pre post : List Addr} {a : Addr}
    (h : Settled live stubs n R op pre a post σ) (hquiet : Quiet n R σ σ') :
    Settled live stubs n R op pre a post σ' where
  split := h.split
  here := (hquiet.elected a).trans h.here
  before b hb := by
    rw [hquiet.elected]
    exact h.before b hb
  adopted i inv' hn hi hround hpos := by
    rcases hquiet.runs i inv' hn hi with ⟨_, _, hid⟩ | ⟨inv, hold, hcollects⟩
    · omega
    · rw [hcollects.operation]
      rw [hcollects.acceptedId] at hpos
      exact h.adopted i inv hn hold (hcollects.evolves.round.symm.trans hround) hpos
  own i inv' hn hi hround hnot := by
    rcases hquiet.runs i inv' hn hi with ⟨hpromised, _⟩ | ⟨inv, hold, hcollects⟩
    · rw [hpromised]
      exact Or.inl List.not_mem_nil
    · rw [hcollects.acceptedId] at hnot
      rw [hcollects.promisedBy, hcollects.evolves.request]
      exact (h.own i inv hn hold (hcollects.evolves.round.symm.trans hround) hnot).imp_right
        fun ⟨hproposed, hown⟩ => ⟨(hcollects.evolves.proposed hproposed).1, hown⟩

/-! ## A delivered call -/

/-- The promises that an election has are those of the first replicas that it
reaches. -/
theorem Candidates.promised_prefix (h : Candidates live stubs n σ) {i : Nat}
    {inv : Invocation} (hn : n ≤ i) (hi : σ.runs[i]? = some inv) :
    ∃ rest, inv.promisedBy ++ rest = reached live stubs.addrs := by
  obtain ⟨_, hcourse⟩ := h i inv hn hi
  unfold Invocation.OnCourse at hcourse
  split at hcourse
  · obtain ⟨seen, _, _, hpromised, _⟩ := hcourse
    exact ⟨reached live stubs.addrs, by rw [hpromised, List.nil_append]⟩
  · exact ⟨_, hcourse.2.1⟩
  · exact ⟨[], by simp [hcourse.2.1]⟩
  · exact ⟨[], by simp [hcourse.2.1]⟩
  · exact ⟨[], by simp [hcourse.2.1]⟩

/-- A second election that asks a server for the first promise of an undecided
round would get it again. -/
theorem Undecided.alone (h : Undecided live stubs n R σ) (hcandidates : Candidates live stubs n σ)
    (hlisted : ∀ a ∈ live, a ∈ stubs.addrs) {run j : Nat} {inv other : Invocation}
    {addr : Addr} {todo : List Addr} {randomFail : Bool}
    (hkept : σ.PromisesKept live n R (.call run .delivered randomFail)) (hn : n ≤ run)
    (hrun : σ.runs[run]? = some inv) (hphase : inv.phase = .prepare (addr :: todo))
    (hround : inv.round = R) (hj : n ≤ j) (hne : j ≠ run) (hother : σ.runs[j]? = some other)
    (hround' : other.round = R) : other.promisedBy = [] := by
  by_contra hpromised
  -- so the other one has the promise of the head, and this one asks it now
  have hnil : inv.promisedBy = [] :=
    (h.first run j inv other hn hj (Ne.symm hne) hrun hother hround hround').resolve_right
      hpromised
  obtain ⟨_, hcourse⟩ := hcandidates run inv hn hrun
  rw [Invocation.OnCourse, hphase] at hcourse
  have hasked := hcourse.2.1
  rw [hnil, List.nil_append] at hasked
  obtain ⟨rest, hrest⟩ := hcandidates.promised_prefix hj hother
  rw [← hasked] at hrest
  have hmem : addr ∈ other.promisedBy := by
    obtain ⟨head, tail, heq⟩ := List.exists_cons_of_ne_nil hpromised
    rw [heq, List.cons_append] at hrest
    cases hrest
    rw [heq]
    exact List.mem_cons_self
  obtain ⟨b, hb, hsome⟩ :=
    hkept inv hrun (promisesAgain_of hn hphase hround hj hne hother hround' hmem)
  exact hsome (h.empty b (Invocation.mem_reached.mpr ⟨hlisted b hb, hb⟩))

section Deliver

variable {run : Nat} {inv inv' : Invocation} {receiver : Addr} {msg : Message} {reply : Reply}
  {randomFail : Bool}

/-- A call that writes no acceptance for an undecided round leaves it so. -/
theorem Undecided.ask (h : Undecided live stubs n R σ)
    (hcandidates : Candidates live stubs n σ) (hlisted : ∀ a ∈ live, a ∈ stubs.addrs)
    (hkept : σ.PromisesKept live n R (.call run .delivered randomFail)) (hn : n ≤ run)
    (hrun : σ.runs[run]? = some inv) (hlive : receiver ∈ live)
    (hdelivers : σ.Delivers inv receiver randomFail msg reply inv')
    (hno : ¬ (inv.Proposed ∧ inv.round = R)) (hruns : σ'.runs = σ.runs.set run inv')
    (helected : ∀ b, σ'.electedAt b R = σ.electedAt b R) : Undecided live stubs n R σ' := by
  have hkey := hcandidates.key hn hrun
  have hreceiver : σ.electedAt receiver R = none :=
    h.empty receiver (Invocation.mem_reached.mpr ⟨hlisted receiver hlive, hlive⟩)
  have hnone : inv.round = R →
      ((σ.db receiver).paxosLog inv.key inv.round).acceptedId ≠ 1 := by
    intro hround hone
    rw [hkey, hround] at hone
    rw [electedAt, PaxosLog.accepted, if_pos (by omega)] at hreceiver
    cases hreceiver
  -- a call for the round is a `Ping`, or a `Prepare` that gets no acceptance
  have hcollects : inv.round = R →
      (inv'.acceptedId = inv.acceptedId ∧ inv'.acceptedBy = inv.acceptedBy) ∧
        (inv'.promisedBy = inv.promisedBy ∨
          ∃ todo, inv.phase = .prepare (receiver :: todo)) := by
    intro hround
    cases hdelivers with
    | ping hphase => exact ⟨⟨rfl, rfl⟩, Or.inl rfl⟩
    | refuse hphase hfail hreject => exact ⟨⟨rfl, rfl⟩, Or.inl rfl⟩
    | promise hphase hok hreject hlog hid => exact ⟨⟨rfl, rfl⟩, Or.inr ⟨_, hphase⟩⟩
    | adopt hphase hok hreject hlog hid hop hzero => exact absurd hlog (hnone hround)
    | keep hphase hok hreject hlog hid hone => exact absurd hlog (hnone hround)
    | reject hphase hfail hreject => exact absurd hkey hreject.1
    | accept hphase hok => exact absurd ⟨by simp [Invocation.Proposed, hphase], hround⟩ hno
    | inform hphase hiff => exact absurd ⟨by simp [Invocation.Proposed, hphase], hround⟩ hno
  have hround' : inv'.round = inv.round := hdelivers.round
  refine ⟨fun a ha => (helected a).trans (h.empty a ha), ?_, ?_⟩
  · intro i other hi hother hR
    rw [hruns] at hother
    rcases getElem?_set_cases hrun hother with ⟨rfl, rfl⟩ | ⟨_, hother⟩
    · rw [hround'] at hR
      obtain ⟨⟨hid, haccepted⟩, _⟩ := hcollects hR
      rw [hid, haccepted]
      exact h.fresh i inv hi hrun hR
    · exact h.fresh i other hi hother hR
  · have hothers : ∀ (j : Nat) (other : Invocation), n ≤ j → j ≠ run →
        σ.runs[j]? = some other → inv.round = R → other.round = R →
        inv'.promisedBy = [] ∨ other.promisedBy = [] := by
      intro j other hj hne hother hR hR'
      rcases (hcollects hR).2 with hsame | ⟨todo, hphase⟩
      · rw [hsame]
        exact h.first run j inv other hn hj (Ne.symm hne) hrun hother hR hR'
      · exact Or.inr (h.alone hcandidates hlisted hkept hn hrun hphase hR hj hne hother hR')
    intro i j one other hi hj hne hone hother hR hR'
    rw [hruns] at hone hother
    rcases getElem?_set_cases hrun hone with ⟨rfl, rfl⟩ | ⟨hne1, hold1⟩
    · rcases getElem?_set_cases hrun hother with ⟨heq, _⟩ | ⟨hne2, hold⟩
      · exact absurd heq.symm hne
      · exact hothers j other hj hne2 hold (hround' ▸ hR) hR'
    · rcases getElem?_set_cases hrun hother with ⟨rfl, rfl⟩ | ⟨_, hold⟩
      · exact (hothers i one hi hne1 hold1 (hround' ▸ hR') hR).symm
      · exact h.first i j one other hi hj hne hold1 hold hR hR'

/-- The first acceptance for an undecided round settles it. -/
theorem Undecided.settle (h : Undecided live stubs n R σ) (hwf : inv.Wf)
    (hcandidates : Candidates live stubs n σ) (hn : n ≤ run)
    (hrun : σ.runs[run]? = some inv)
    (hdelivers : σ.Delivers inv receiver randomFail msg reply inv') (hevolves : inv.Evolves inv')
    (hproposed : inv.Proposed) (hround : inv.round = R) (hruns : σ'.runs = σ.runs.set run inv')
    (helected : σ'.electedAt receiver R = some inv.proposal) :
    ∃ post, Settled live stubs n R inv.proposal [] receiver post σ' := by
  have hkey := hcandidates.key hn hrun
  obtain ⟨_, hcourse⟩ := hcandidates run inv hn hrun
  obtain ⟨hid, haccepted⟩ := h.fresh run inv hn hrun hround
  have hown : inv.proposal = inv.request.setProposeValue := by
    rw [Invocation.proposal, if_neg (by omega)]
  have hpromised := hcourse.promisedBy hproposed
  cases hdelivers with
  | @accept todo status hphase hok =>
    rw [Invocation.OnCourse, hphase, haccepted] at hcourse
    have hreached : receiver :: todo = reached live stubs.addrs := hcourse.2.2
    refine ⟨todo, hreached.symm, helected, List.forall_mem_nil _, ?_, ?_⟩
    · intro i other hi hother hR hpos
      rw [hruns] at hother
      rcases getElem?_set_cases hrun hother with ⟨rfl, rfl⟩ | ⟨_, hother⟩
      · exact absurd hid (by exact ne_of_gt hpos)
      · have := (h.fresh i other hi hother hR).1
        omega
    · intro i other hi hother hR _
      rw [hruns] at hother
      rcases getElem?_set_cases hrun hother with ⟨rfl, rfl⟩ | ⟨hne, hother⟩
      · exact Or.inr ⟨(hevolves.proposed hproposed).1, hown.symm⟩
      · have hnil : other.promisedBy = [] := by
          refine (h.first run i inv other hn hi (Ne.symm hne) hrun hother hround hR).resolve_left ?_
          rw [hpromised, ← hreached]
          exact List.cons_ne_nil _ _
        rw [hnil]
        exact Or.inl List.not_mem_nil
  | inform hphase hiff =>
    -- who informs has acceptances
    have hcommitted : inv.Committed := by simp [Invocation.Committed, hphase]
    obtain ⟨b, hb⟩ := (hwf.committed hcommitted).2.1.exists_mem
    rw [haccepted] at hb
    cases hb
  | reject hphase hfail hreject => exact absurd hkey hreject.1
  | refuse hphase hfail hreject => exact absurd hkey hreject.1
  | ping hphase => simp [Invocation.Proposed, hphase] at hproposed
  | promise hphase hok hreject hlog hid => simp [Invocation.Proposed, hphase] at hproposed
  | adopt hphase hok hreject hlog hid hop hzero =>
    simp [Invocation.Proposed, hphase] at hproposed
  | keep hphase hok hreject hlog hid hone => simp [Invocation.Proposed, hphase] at hproposed

/-- A replica that is asked before `a` was comes before it, or is `a`. -/
theorem eq_or_mem_of_notMem {seen rest pre post : List Addr} {a b : Addr}
    (h : seen ++ b :: rest = pre ++ a :: post) (hnot : a ∉ seen) : b = a ∨ b ∈ pre := by
  induction seen generalizing pre with
  | nil =>
    cases pre with
    | nil =>
      cases h
      exact Or.inl rfl
    | cons head pre =>
      cases h
      exact Or.inr List.mem_cons_self
  | cons head seen ih =>
    rw [List.mem_cons, not_or] at hnot
    cases pre with
    | nil =>
      cases h
      exact absurd rfl hnot.1
    | cons head' pre =>
      have htail : seen ++ b :: rest = pre ++ a :: post := by
        simp only [List.cons_append, List.cons.injEq] at h
        exact h.2
      exact (ih htail hnot.2).imp_right (List.mem_cons_of_mem head')

/-- What an election gets from a settled round. -/
theorem Settled.adopts {op : Operation} {pre post : List Addr} {a : Addr}
    (h : Settled live stubs n R op pre a post σ) (hcandidates : Candidates live stubs n σ)
    (hn : n ≤ run) (hrun : σ.runs[run]? = some inv)
    (hdelivers : σ.Delivers inv receiver randomFail msg reply inv') (hround : inv.round = R)
    (hpos : 0 < inv'.acceptedId) : inv'.acceptedOperation = op := by
  have hkey := hcandidates.key hn hrun
  have hadopted := h.adopted run inv hn hrun hround
  cases hdelivers with
  | @adopt todo status response hphase hok hreject hlog hid hop hzero =>
    obtain ⟨_, hcourse⟩ := hcandidates run inv hn hrun
    rw [Invocation.OnCourse, hphase] at hcourse
    have hasked := hcourse.2.1
    rw [h.split] at hasked
    -- it has not asked `a` yet, or it would have adopted there
    have hnot : a ∉ inv.promisedBy := by
      refine (h.own run inv hn hrun hround (by omega)).resolve_right fun hown => ?_
      simp [Invocation.Proposed, hphase] at hown
    rw [hkey, hround] at hlog hop
    have hgot : σ.electedAt receiver R = some response.operation := by
      rw [hop]
      exact PaxosLog.accepted_eq_some_iff.mpr ⟨by omega, rfl⟩
    show response.operation = op
    rcases eq_or_mem_of_notMem hasked hnot with rfl | hbefore
    · rw [h.here] at hgot
      cases hgot
      rfl
    · rcases h.before receiver hbefore with hnone | hsome
      · rw [hnone] at hgot
        cases hgot
      · rw [hsome] at hgot
        cases hgot
        rfl
  | _ => exact hadopted hpos

/-- A call of an election leaves a settled round settled. -/
theorem Settled.deliver {op : Operation} {pre post : List Addr} {a : Addr}
    (h : Settled live stubs n R op pre a post σ) (hcandidates : Candidates live stubs n σ)
    (hn : n ≤ run) (hrun : σ.runs[run]? = some inv)
    (hdelivers : σ.Delivers inv receiver randomFail msg reply inv') (hevolves : inv.Evolves inv')
    (hruns : σ'.runs = σ.runs.set run inv')
    (helected : ∀ b, σ'.electedAt b R = if b = receiver ∧ inv.Proposed ∧ inv.round = R then
      some inv.proposal else σ.electedAt b R) :
    Settled live stubs n R op pre a post σ' := by
  have hkey := hcandidates.key hn hrun
  obtain ⟨_, hcourse⟩ := hcandidates run inv hn hrun
  have hproposal : inv.Proposed ∧ inv.round = R → inv.proposal = op := fun ⟨hproposed, hround⟩ =>
    h.proposal hn hrun hround hcourse hproposed
  refine ⟨h.split, ?_, ?_, ?_, ?_⟩
  · rw [helected]
    split
    · rename_i hwrites
      rw [hproposal hwrites.2]
    · exact h.here
  · intro b hb
    rw [helected]
    split
    · rename_i hwrites
      rw [hproposal hwrites.2]
      exact Or.inr rfl
    · exact h.before b hb
  · intro i other hi hother hR hpos
    rw [hruns] at hother
    rcases getElem?_set_cases hrun hother with ⟨rfl, rfl⟩ | ⟨_, hother⟩
    · exact h.adopts hcandidates hn hrun hdelivers (hevolves.round.symm.trans hR) hpos
    · exact h.adopted i other hi hother hR hpos
  · intro i other hi hother hR hzero
    rw [hruns] at hother
    rcases getElem?_set_cases hrun hother with ⟨rfl, rfl⟩ | ⟨_, hother⟩
    · have hround : inv.round = R := hevolves.round.symm.trans hR
      have hbefore : ¬ 0 < inv.acceptedId := fun hpos => hzero (hdelivers.adopted hpos)
      rcases h.own i inv hn hrun hround hbefore with hnot | ⟨hproposed, hown⟩
      · left
        cases hdelivers with
        | promise hphase hok hreject hlog hid =>
          rw [hkey, hround] at hlog
          have hother : receiver ≠ a := by
            intro heq
            have hhere := h.here
            rw [← heq, electedAt, PaxosLog.accepted, if_neg (by omega)] at hhere
            cases hhere
          simp [hnot, Ne.symm hother]
        | adopt hphase hok hreject hlog hid hop hnone =>
          exact absurd (by simp [hid]) hzero
        | keep hphase hok hreject hlog hid hone => omega
        | _ => exact hnot
      · right
        rw [hevolves.request]
        exact ⟨(hevolves.proposed hproposed).1, hown⟩
    · exact h.own i other hi hother hR hzero

end Deliver

/-! ## The round of a whole phase -/

/-- The round is undecided or settled. -/
def RoundAgrees (live : List Addr) (stubs : PaxosStubs) (n : Nat) (R : Int) (σ : System) :
    Prop :=
  Undecided live stubs n R σ ∨ ∃ op pre a post, Settled live stubs n R op pre a post σ

/-- It is so at the start of the phase. -/
theorem roundAgrees_start (hruns : σ.runs.length ≤ n) : RoundAgrees live stubs n R σ := by
  have hno : ∀ (i : Nat) (inv : Invocation), n ≤ i → σ.runs[i]? ≠ some inv := by
    intro i inv hn hi
    rw [List.getElem?_eq_none (by omega)] at hi
    cases hi
  cases hfind : (reached live stubs.addrs).find? fun a => (σ.electedAt a R).isSome with
  | none =>
    left
    rw [List.find?_eq_none] at hfind
    refine ⟨fun a ha => ?_, fun i inv hn hi => absurd hi (hno i inv hn),
      fun i j inv _ hn _ _ hi => absurd hi (hno i inv hn)⟩
    simpa using hfind a ha
  | some a =>
    right
    obtain ⟨hsome, pre, post, hsplit, hbefore⟩ := List.find?_eq_some_iff_append.mp hfind
    obtain ⟨op, hop⟩ := Option.isSome_iff_exists.mp hsome
    refine ⟨op, pre, a, post, hsplit, hop, fun b hb => Or.inl ?_,
      fun i inv hn hi => absurd hi (hno i inv hn), fun i inv hn hi => absurd hi (hno i inv hn)⟩
    simpa using hbefore b hb

theorem roundAgrees_step (hprov : Provenance σ) (h : RoundAgrees live stubs n R σ)
    (hcandidates : Candidates live stubs n σ) (hlisted : ∀ a ∈ live, a ∈ stubs.addrs)
    (hkept : σ.PromisesKept live n R act) (hstep : ElectsCases live n σ act σ') :
    RoundAgrees live stubs n R σ' := by
  rcases hstep.quiet_or hprov with hquiet |
    ⟨run, inv, inv', receiver, msg, reply, randomFail, rfl, hn, hrun, hlive, hcall, hdelivers,
      hevolves, hruns, hservers⟩
  · rcases h with hundecided | ⟨op, pre, a, post, hsettled⟩
    · exact Or.inl (hundecided.quiet hquiet)
    · exact Or.inr ⟨op, pre, a, post, hsettled.quiet hquiet⟩
  · have hkey := hcandidates.key hn hrun
    have helected := fun b => electedAt_deliver hprov hrun hcall hkey hservers b (R := R)
    rcases h with hundecided | ⟨op, pre, a, post, hsettled⟩
    · by_cases hwrites : inv.Proposed ∧ inv.round = R
      · have hsettles := hundecided.settle (hprov.wf run inv hrun) hcandidates hn hrun hdelivers
          hevolves hwrites.1 hwrites.2 hruns ((helected receiver).trans (if_pos ⟨rfl, hwrites⟩))
        exact Or.inr ⟨_, _, _, hsettles⟩
      · refine Or.inl (hundecided.ask hcandidates hlisted hkept hn hrun hlive hdelivers hwrites
          hruns fun b => ?_)
        rw [helected, if_neg (fun h => hwrites h.2)]
    · exact Or.inr ⟨op, pre, a, post,
        hsettled.deliver hcandidates hn hrun hdelivers hevolves hruns helected⟩

/-- In a round that agrees, all elections that inform inform of one operation. -/
theorem RoundAgrees.proposal (h : RoundAgrees live stubs n R σ)
    (hprov : Provenance σ) (hcandidates : Candidates live stubs n σ) {i j : Nat}
    {inv inv' : Invocation} (hi : n ≤ i) (hj : n ≤ j) (hrun : σ.runs[i]? = some inv)
    (hrun' : σ.runs[j]? = some inv') (hround : inv.round = R) (hround' : inv'.round = R)
    (hcommitted : inv.Committed) (hcommitted' : inv'.Committed) :
    inv'.proposal = inv.proposal := by
  rcases h with hundecided | ⟨op, pre, a, post, hsettled⟩
  · obtain ⟨b, hb⟩ := ((hprov.wf i inv hrun).committed hcommitted).2.1.exists_mem
    rw [(hundecided.fresh i inv hi hrun hround).2] at hb
    cases hb
  · have hproposed := (hprov.wf i inv hrun).proposed_of_committed hcommitted
    have hproposed' := (hprov.wf j inv' hrun').proposed_of_committed hcommitted'
    rw [hsettled.proposal hi hrun hround (hcandidates i inv hi hrun).2 hproposed,
      hsettled.proposal hj hrun' hround' (hcandidates j inv' hj hrun').2 hproposed']

end System

end PaxosKVStore
