import PaxosKVStore.AtomicMap
import PaxosKVStore.Delivery

/-!
# Invocations on one key that do not overlap

The setting of the refinement theorems: on one `key`, invocations follow each
other, and there are replicas `A` to which every call on the key is
delivered.  Every invocation on the key starts at a member of `A`, and has
all of `A` in its replica list.  The other replicas and the other keys are
unrestricted.

`Exclusive` is the invariant.  A member of `A` has logged the round of every
finished invocation, so a new round is above all older ones; hence no
acceptance of its slot exists before it proposes, nothing is adopted, and no
`Inform` of the running invocation is overtaken.  `Follows` is its
consequence for the contents: a member of `A` holds the acknowledged entry,
and from its `Inform` on the outcome of the running request.
-/

namespace PaxosKVStore

namespace Invocation

/-- `addr` is in the live set, or will still be pinged. -/
def Reaches (inv : Invocation) (addr : Addr) : Prop :=
  match inv.phase with
  | .ping todo => addr ∈ todo ∨ addr ∈ inv.livePaxosStubs
  | _ => addr ∈ inv.livePaxosStubs

/-- The `Prepare` loop is past `addr`, if it is in the live set. -/
def Visited (inv : Invocation) (addr : Addr) : Prop :=
  match inv.phase with
  | .ping _ => False
  | .prepare todo => addr ∉ todo
  | _ => True

/-- The `Inform` loop is past `addr`, if it is in the live set. -/
def HasInformed (inv : Invocation) (addr : Addr) : Prop :=
  match inv.phase with
  | .inform todo => addr ∉ todo
  | _ => False

theorem HasInformed.active {inv : Invocation} {addr : Addr} (h : inv.HasInformed addr) :
    inv.Active := by
  unfold HasInformed at h
  unfold Active
  split at h
  · rename_i hphase
    rw [hphase]
    trivial
  · exact h.elim

/-- A returned invocation has left all loops. -/
theorem Visited.of_not_active {inv : Invocation} (h : ¬ inv.Active) (addr : Addr) :
    inv.Visited addr := by
  unfold Active at h
  unfold Visited
  split at h
  · rename_i hphase
    rw [hphase]
    trivial
  · exact absurd trivial h

end Invocation

namespace System

/-- No invocation on `key` is in progress. -/
def Idle (σ : System) (key : String) : Prop :=
  ∀ inv ∈ σ.runs, inv.key = key → ¬ inv.Active

instance (σ : System) (key : String) : Decidable (σ.Idle key) :=
  inferInstanceAs (Decidable (∀ inv ∈ σ.runs, inv.key = key → ¬ inv.Active))

/-- What a step has to respect about `key` and the replicas `A`. -/
def Respects (A : Addr → Prop) (key : String) (σ : System) : Action → Prop
  | .start server request context =>
      request.refusal context = none → request.key = key →
        A server ∧ σ.Idle key ∧
          ∀ a, A a → a ∈ (σ.servers server).paxosStubsMap.stubs.addrs ∧
            request.Sound (σ.servers a).paxosStubsMap.stubs.addrs
  | .call run fate _ =>
      ∀ inv ∈ σ.runs[run]?, inv.key = key →
        ∀ next ∈ inv.nextCall, A next.1 → fate = .delivered
  | .advance _ => True
  | .arrive .. => True

/-! ## The invariant -/

structure Exclusive (A : Addr → Prop) (key : String) (σ : System) : Prop where
  serial : ∀ (i j : Nat) (inv inv' : Invocation), i < j → σ.runs[i]? = some inv →
    σ.runs[j]? = some inv' → inv.key = key → inv'.key = key →
    ¬ inv.Active ∧ inv.round < inv'.round
  sound : ∀ (i : Nat) (inv : Invocation), σ.runs[i]? = some inv → inv.key = key →
    ∀ a, A a → inv.request.Sound (σ.servers a).paxosStubsMap.stubs.addrs
  reaches : ∀ (i : Nat) (inv : Invocation), σ.runs[i]? = some inv → inv.key = key →
    ∀ a, A a → inv.Reaches a
  logged : ∀ (i : Nat) (inv : Invocation), σ.runs[i]? = some inv → inv.key = key →
    ∀ a, A a → inv.Visited a → inv.round ∈ (σ.db a).rounds key
  inFlight : ∀ (i : Nat) (a : Addr) (msg : Message) (inv : Invocation),
    (i, a, msg) ∈ σ.inFlight → σ.runs[i]? = some inv → inv.key = key → ¬ A a

variable {A : Addr → Prop} {key : String} {σ σ' : System} {act : Action}

theorem exclusive_init (h : σ.IsInitial) : Exclusive A key σ where
  serial i j inv inv' _ hi := by simp [h.runs] at hi
  sound i inv hi := by simp [h.runs] at hi
  reaches i inv hi := by simp [h.runs] at hi
  logged i inv hi := by simp [h.runs] at hi
  inFlight i a msg inv hmem := by simp [h.inFlight] at hmem

/-! ### Reading the invariant -/

/-- Two invocations on the key with one round are the same. -/
theorem Exclusive.eq_of_round (h : Exclusive A key σ) {i j : Nat} {inv inv' : Invocation}
    (hi : σ.runs[i]? = some inv) (hj : σ.runs[j]? = some inv') (hkey : inv.key = key)
    (hkey' : inv'.key = key) (hround : inv.round = inv'.round) : i = j := by
  rcases lt_trichotomy i j with hlt | heq | hgt
  · have := (h.serial i j inv inv' hlt hi hj hkey hkey').2
    omega
  · exact heq
  · have := (h.serial j i inv' inv hgt hj hi hkey' hkey).2
    omega

/-- Two running invocations on the key are the same. -/
theorem Exclusive.eq_of_active (h : Exclusive A key σ) {i j : Nat} {inv inv' : Invocation}
    (hi : σ.runs[i]? = some inv) (hj : σ.runs[j]? = some inv') (hkey : inv.key = key)
    (hkey' : inv'.key = key) (hactive : inv.Active) (hactive' : inv'.Active) : i = j := by
  rcases lt_trichotomy i j with hlt | heq | hgt
  · exact absurd hactive (h.serial i j inv inv' hlt hi hj hkey hkey').1
  · exact heq
  · exact absurd hactive' (h.serial j i inv' inv hgt hj hi hkey' hkey).1

/-- Nothing is ever adopted: an accepted operation of the slot is the
invocation's own. -/
theorem Exclusive.acceptedId (h : Exclusive A key σ) (hprov : Provenance σ) {i : Nat}
    {inv : Invocation} (hi : σ.runs[i]? = some inv) (hkey : inv.key = key) :
    inv.acceptedId = 0 := by
  rcases hprov.adopted i inv hi with h0 | ⟨h1, j, inv', hj, hkey', hround, _, hown, _⟩
  · exact h0
  · have hij := h.eq_of_round hi hj hkey (hkey'.trans hkey) hround.symm
    subst hij
    rw [hi] at hj
    cases hj
    exact hown

theorem Exclusive.proposal (h : Exclusive A key σ) (hprov : Provenance σ) {i : Nat}
    {inv : Invocation} (hi : σ.runs[i]? = some inv) (hkey : inv.key = key) :
    inv.proposal = inv.request.setProposeValue := by
  rw [Invocation.proposal, h.acceptedId hprov hi hkey, if_neg (by decide)]

/-- No replica has logged a round above that of the running invocation. -/
theorem Exclusive.not_supersedes (h : Exclusive A key σ) (hprov : Provenance σ) {i : Nat}
    {inv : Invocation} (hi : σ.runs[i]? = some inv) (hkey : inv.key = key)
    (hactive : inv.Active) (a : Addr) : ¬ (σ.db a).Supersedes key inv.round := by
  rintro ⟨r, hr, hlt⟩
  obtain ⟨j, inv', hj, hkey', rfl⟩ := (hprov.db a).rounds key r hr
  rcases lt_trichotomy i j with hij | heq | hij
  · exact absurd hactive (h.serial i j inv inv' hij hi hj hkey hkey').1
  · subst heq
    rw [hi] at hj
    cases hj
    exact absurd hlt (lt_irrefl _)
  · have := (h.serial j i inv' inv hij hj hi hkey' hkey).2
    omega

/-! ### Steps -/

/-- A logged round stays logged. -/
theorem Effect.rounds_mono (h : Effect σ σ') {a : Addr} {k : String} {r : Int}
    (hr : r ∈ (σ.db a).rounds k) : r ∈ (σ'.db a).rounds k := by
  cases h with
  | quiet new hhistory hnew hservers => exact ((hservers a).mem_rounds k r).mpr hr
  | handled run receiver msg context randomFail new hhistory hnew hhandled hother =>
    by_cases ha : a = receiver
    · subst ha
      exact (hhandled.rounds k r).mpr (Or.inr hr)
    · rw [db, hother a ha]
      exact hr

theorem exclusive_step_serial (h : Exclusive A key σ) (hprov : Provenance σ)
    (hrespects : Respects A key σ act) (hstep : StepCases σ act σ') (i j : Nat)
    (inv inv' : Invocation) (hij : i < j) (hi : σ'.runs[i]? = some inv)
    (hj : σ'.runs[j]? = some inv') (hkey : inv.key = key) (hkey' : inv'.key = key) :
    ¬ inv.Active ∧ inv.round < inv'.round := by
  rcases step_runs_back hprov.wf hstep hj with
    ⟨inv0', hj0, hev'⟩ | ⟨server, request, context, rfl, hnone, hlen, rfl⟩
  · have hlt := (List.getElem?_eq_some_iff.mp hj0).1
    rcases step_runs_back hprov.wf hstep hi with ⟨inv0, hi0, hev⟩ | ⟨_, _, _, _, _, hlen, _⟩
    · obtain ⟨hnot, hround⟩ := h.serial i j inv0 inv0' hij hi0 hj0 (hev.key ▸ hkey)
        (hev'.key ▸ hkey')
      rw [hev.returned hnot, hev'.round]
      exact ⟨hnot, hround⟩
    · omega
  · rcases step_runs_back hprov.wf hstep hi with ⟨inv0, hi0, hev⟩ | ⟨_, _, _, _, _, hlen', _⟩
    · -- the new round is above what its server has logged
      have hkey0 : inv0.key = key := hev.key ▸ hkey
      obtain ⟨hserver, hidle, _⟩ := hrespects hnone hkey'
      have hnot := hidle inv0 (List.mem_of_getElem? hi0) hkey0
      have hle := KeyValueDataBase.le_latestRound
        (h.logged i inv0 hi0 hkey0 server hserver (.of_not_active hnot server))
      rw [hev.returned hnot]
      refine ⟨hnot, ?_⟩
      show inv0.round < (σ.db server).latestRound request.key + 1
      rw [show request.key = key from hkey']
      omega
    · omega

theorem exclusive_step_sound (h : Exclusive A key σ) (hprov : Provenance σ)
    (hrespects : Respects A key σ act) (hstep : StepCases σ act σ') (i : Nat)
    (inv : Invocation) (hi : σ'.runs[i]? = some inv) (hkey : inv.key = key) (a : Addr)
    (ha : A a) : inv.request.Sound (σ'.servers a).paxosStubsMap.stubs.addrs := by
  rw [(step_effect hstep).stubs a]
  rcases step_runs_back hprov.wf hstep hi with
    ⟨inv0, hi0, hev⟩ | ⟨server, request, context, rfl, hnone, _, rfl⟩
  · rw [hev.request]
    exact h.sound i inv0 hi0 (hev.key ▸ hkey) a ha
  · exact ((hrespects hnone hkey).2.2 a ha).2

/-- A member of `A` is reached by every call on the key. -/
theorem fate_of_respects {run : Nat} {inv : Invocation} {receiver : Addr} {msg : Message}
    {fate : Fate} {randomFail : Bool} (hrespects : Respects A key σ (.call run fate randomFail))
    (hrun : σ.runs[run]? = some inv) (hcall : inv.Calls receiver msg) (hkey : inv.key = key)
    (hreceiver : A receiver) : fate = .delivered :=
  hrespects inv hrun hkey _ (Invocation.nextCall_of_calls hcall) hreceiver

/-- The invocation after a call: it gets the answer, or its loop moves on past
a replica outside `A`. -/
theorem call_of_respects (hprov : Provenance σ) {run : Nat} {inv : Invocation}
    {receiver : Addr} {msg : Message} {fate : Fate} {randomFail : Bool}
    (hrespects : Respects A key σ (.call run fate randomFail))
    (hrun : σ.runs[run]? = some inv) (hcall : inv.Calls receiver msg) (hkey : inv.key = key) :
    ∃ inv', (σ.call run inv receiver msg fate randomFail).runs = σ.runs.set run inv' ∧
      inv.Evolves inv' ∧
      ((∃ reply, fate = .delivered ∧ Delivers σ inv receiver randomFail msg reply inv' ∧
          Handled (σ.servers receiver)
            ((σ.call run inv receiver msg fate randomFail).servers receiver) msg reply ∧
          msg.logged reply = msg.slot) ∨
        (¬ A receiver ∧ inv' = { inv with phase := inv.phase.tail })) := by
  by_cases hfate : fate = .delivered
  · subst hfate
    obtain ⟨reply, inv', hdelivers, hruns, _, hhandled, hlogged, hev⟩ :=
      call_delivered hprov hrun hcall randomFail
    exact ⟨inv', hruns, hev, Or.inl ⟨reply, rfl, hdelivers, hhandled, hlogged⟩⟩
  · refine ⟨_, (call_lost hfate).1, ?_, Or.inr ⟨fun hreceiver => hfate ?_, rfl⟩⟩
    · exact σ.call_evolves hcall randomFail .lost
    exact fate_of_respects hrespects hrun hcall hkey hreceiver

/-- A call leaves the invocations on other keys. -/
theorem getElem?_call_of_ne {run i : Nat} {inv inv' : Invocation} {receiver : Addr}
    {msg : Message} {fate : Fate} {randomFail : Bool} (hrun : σ.runs[run]? = some inv)
    (hcall : inv.Calls receiver msg) (hne : inv.key ≠ inv'.key)
    (hi : (σ.call run inv receiver msg fate randomFail).runs[i]? = some inv') :
    σ.runs[i]? = some inv' := by
  rw [call_runs] at hi
  rcases getElem?_set_cases hrun hi with ⟨_, rfl⟩ | ⟨_, hi⟩
  · exact absurd (σ.call_evolves hcall randomFail fate).key.symm hne
  · exact hi

theorem exclusive_step_reaches (h : Exclusive A key σ) (hprov : Provenance σ)
    (hrespects : Respects A key σ act) (hstep : StepCases σ act σ') (i : Nat)
    (inv : Invocation) (hi : σ'.runs[i]? = some inv) (hkey : inv.key = key) (a : Addr)
    (ha : A a) : inv.Reaches a := by
  cases hstep with
  | refuse hrefusal => exact h.reaches i inv hi hkey a ha
  | enter hrefusal =>
    rcases getElem?_snoc_cases hi with ⟨_, rfl⟩ | hi
    · exact Or.inl ((hrespects hrefusal hkey).2.2 a ha).1
    · exact h.reaches i inv hi hkey a ha
  | @call run inv0 receiver msg fate randomFail hrun hcall =>
    by_cases hkey0 : inv0.key = key
    · obtain ⟨inv1, hruns, hev, hcases⟩ := call_of_respects hprov hrespects hrun hcall hkey0
      rw [hruns] at hi
      rcases getElem?_set_cases hrun hi with ⟨rfl, rfl⟩ | ⟨_, hi⟩
      · have hreaches := h.reaches i inv0 hrun hkey0 a ha
        rcases hcases with ⟨reply, _, hdelivers, _⟩ | ⟨hreceiver, rfl⟩
        · cases hdelivers with
          | ping hphase =>
            simp only [Invocation.Reaches, hphase, List.mem_cons, List.mem_append] at hreaches ⊢
            tauto
          | _ => simp_all [Invocation.Reaches]
        · have hne : a ≠ receiver := fun heq => hreceiver (heq ▸ ha)
          cases hcall <;> simp_all [Invocation.Reaches, Phase.tail]
      · exact h.reaches i inv hi hkey a ha
    · exact h.reaches i inv (getElem?_call_of_ne hrun hcall (hkey ▸ hkey0) hi) hkey a ha
  | @advance run inv0 inv1 hrun hadvance =>
    rw [noteReturn_runs] at hi
    rcases getElem?_set_cases hrun hi with ⟨rfl, rfl⟩ | ⟨_, hi⟩
    · have hreaches := fun hkey0 => h.reaches i inv0 hrun hkey0 a ha
      cases hadvance <;> simp_all [Invocation.Reaches, Invocation.finish, Invocation.key]
    · exact h.reaches i inv hi hkey a ha
  | arrive context randomFail hindex => exact h.reaches i inv hi hkey a ha

theorem exclusive_step_logged (h : Exclusive A key σ) (hprov : Provenance σ)
    (hrespects : Respects A key σ act) (hstep : StepCases σ act σ') (i : Nat)
    (inv : Invocation) (hi : σ'.runs[i]? = some inv) (hkey : inv.key = key) (a : Addr)
    (ha : A a) (hvisited : inv.Visited a) : inv.round ∈ (σ'.db a).rounds key := by
  have hmono : ∀ {r : Int}, r ∈ (σ.db a).rounds key → r ∈ (σ'.db a).rounds key :=
    (step_effect hstep).rounds_mono
  cases hstep with
  | refuse hrefusal => exact hmono (h.logged i inv hi hkey a ha hvisited)
  | enter hrefusal =>
    rcases getElem?_snoc_cases hi with ⟨_, rfl⟩ | hi
    · exact hvisited.elim
    · exact hmono (h.logged i inv hi hkey a ha hvisited)
  | @call run inv0 receiver msg fate randomFail hrun hcall =>
    by_cases hkey0 : inv0.key = key
    · obtain ⟨inv1, hruns, hev, hcases⟩ := call_of_respects hprov hrespects hrun hcall hkey0
      rw [hruns] at hi
      rcases getElem?_set_cases hrun hi with ⟨rfl, rfl⟩ | ⟨_, hi⟩
      · have hlogged := h.logged i inv0 hrun hkey0 a ha
        by_cases hreceiver : a = receiver
        · subst hreceiver
          rcases hcases with ⟨reply, _, hdelivers, hhandled, hslot⟩ | ⟨hno, _⟩
          · by_cases hold : inv0.Visited a
            · rw [hev.round]
              exact hmono (hlogged hold)
            · -- the `Prepare` of `a` logs the round
              refine (hhandled.rounds key _).mpr (Or.inl ?_)
              rw [hslot, hev.round]
              cases hdelivers <;> simp_all [Invocation.Visited, Message.slot,
                Invocation.prepareReq, Invocation.key]
          · exact absurd ha hno
        · have hold : inv0.Visited a := by
            rcases hcases with ⟨reply, _, hdelivers, _⟩ | ⟨_, rfl⟩
            · cases hdelivers <;> simp_all [Invocation.Visited]
            · cases hcall <;> simp_all [Invocation.Visited, Phase.tail]
          rw [hev.round]
          exact hmono (hlogged hold)
      · exact hmono (h.logged i inv hi hkey a ha hvisited)
    · exact hmono (h.logged i inv (getElem?_call_of_ne hrun hcall (hkey ▸ hkey0) hi) hkey a ha
        hvisited)
  | @advance run inv0 inv1 hrun hadvance =>
    rw [noteReturn_runs] at hi
    rcases getElem?_set_cases hrun hi with ⟨rfl, rfl⟩ | ⟨_, hi⟩
    · have hkey0 : inv0.key = key := by
        rw [← hkey]
        cases hadvance <;> rfl
      have hround : inv.round = inv0.round := by cases hadvance <;> rfl
      have hreaches := h.reaches i inv0 hrun hkey0 a ha
      have hold : inv0.Visited a := by
        cases hadvance <;> simp_all [Invocation.Visited, Invocation.Reaches]
      rw [hround]
      exact hmono (h.logged i inv0 hrun hkey0 a ha hold)
    · exact hmono (h.logged i inv hi hkey a ha hvisited)
  | arrive context randomFail hindex => exact hmono (h.logged i inv hi hkey a ha hvisited)

theorem exclusive_step_inFlight (h : Exclusive A key σ) (hprov : Provenance σ)
    (hrespects : Respects A key σ act) (hstep : StepCases σ act σ') (i : Nat) (a : Addr)
    (msg : Message) (inv : Invocation) (hmem : (i, a, msg) ∈ σ'.inFlight)
    (hi : σ'.runs[i]? = some inv) (hkey : inv.key = key) : ¬ A a := by
  have hold : (i, a, msg) ∈ σ.inFlight → ¬ A a := by
    intro hmem
    obtain ⟨inv0, hi0, _⟩ := hprov.sent i a msg (hprov.inFlight i a msg hmem)
    obtain ⟨inv1, hi1, hev⟩ := step_continues hprov.wf hstep i inv0 hi0
    rw [hi] at hi1
    cases hi1
    exact h.inFlight i a msg inv0 hmem hi0 (hev.key ▸ hkey)
  cases hstep with
  | refuse hrefusal => exact hold hmem
  | enter hrefusal => exact hold hmem
  | @call run inv0 receiver msg' fate randomFail hrun hcall =>
    rw [call_inFlight] at hmem
    split at hmem
    · rename_i hfate
      rcases List.mem_append.mp hmem with hmem | hmem
      · exact hold hmem
      · cases List.mem_singleton.mp hmem
        rw [call_runs, getElem?_set_self' hrun] at hi
        cases hi
        intro ha
        have hkey0 : inv0.key = key := (σ.call_evolves hcall randomFail fate).key ▸ hkey
        have := fate_of_respects hrespects hrun hcall hkey0 ha
        rw [hfate] at this
        cases this
    · exact hold hmem
  | advance hrun hadvance =>
    rw [noteReturn_inFlight] at hmem
    exact hold hmem
  | arrive context randomFail hindex => exact hold (List.mem_of_mem_eraseIdx hmem)

theorem exclusive_step (h : Exclusive A key σ) (hprov : Provenance σ)
    (hrespects : Respects A key σ act) (hstep : StepCases σ act σ') : Exclusive A key σ' where
  serial := exclusive_step_serial h hprov hrespects hstep
  sound := exclusive_step_sound h hprov hrespects hstep
  reaches := exclusive_step_reaches h hprov hrespects hstep
  logged := exclusive_step_logged h hprov hrespects hstep
  inFlight := exclusive_step_inFlight h hprov hrespects hstep

theorem exclusive_of_reachable {setup : System → Prop} {C : System → Action → Prop}
    (hC : ∀ σ act, (paxos setup).Reachable C σ → C σ act → Respects A key σ act)
    (h : (paxos setup).Reachable C σ) : Exclusive A key σ := by
  refine ActionSystem.Reachable.invariant ?_ ?_ h
  · intro σ hinit
    exact exclusive_init hinit.1
  · intro σ act σ' hreach hcond hstep hexclusive
    exact exclusive_step hexclusive (provenance_of_reachable hreach) (hC _ _ hreach hcond)
      (step_cases hstep)

end System

end PaxosKVStore
