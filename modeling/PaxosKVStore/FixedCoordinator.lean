import PaxosKVStore.Refinement

/-!
# One coordinator over an unreliable network

One server `C` handles all client requests, and it lists itself.  Its calls
to itself arrive; what becomes of all other calls is open, and a call that
was given up may arrive at any later time.  Elections on the reserved key may
run anywhere.

This is an instance of `Respects` with `C` alone in `A`.  So `C` holds the
acknowledged entries.  Another replica may miss requests, but what it holds
is the outcome of an operation that was committed, and it never goes back.
-/

namespace PaxosKVStore

open Majority

namespace System

/-- The server is in its own replica list. -/
def ListsItself (C : Addr) (σ : System) : Prop :=
  C ∈ (σ.servers C).paxosStubsMap.stubs.addrs

/-- `C` handles the client requests, one at a time on every key, and its calls
to itself arrive. -/
def ServedBy (C : Addr) (σ : System) : Action → Prop
  | .start _ (.electCoordinator key _) _ => key = "coordinator"
  | .start server (.put key value) context =>
      server = C ∧ (Request.refusal context (.put key value) = none → σ.Idle key)
  | .start server (.delete key) context =>
      server = C ∧ (Request.refusal context (.delete key) = none → σ.Idle key)
  | .call run fate _ =>
      ∀ inv ∈ σ.runs[run]?, inv.server = C →
        ∀ next ∈ inv.nextCall, next.1 = C → fate = .delivered
  | .advance _ => True
  | .arrive .. => True

instance (C : Addr) (σ : System) (act : Action) : Decidable (ServedBy C σ act) :=
  match act with
  | .start _ (.electCoordinator key _) _ => inferInstanceAs (Decidable (key = "coordinator"))
  | .start server (.put key value) context =>
      inferInstanceAs (Decidable (server = C ∧
        (Request.refusal context (.put key value) = none → σ.Idle key)))
  | .start server (.delete key) context =>
      inferInstanceAs (Decidable (server = C ∧
        (Request.refusal context (.delete key) = none → σ.Idle key)))
  | .call run fate _ =>
      inferInstanceAs (Decidable (∀ inv ∈ σ.runs[run]?, inv.server = C →
        ∀ next ∈ inv.nextCall, next.1 = C → fate = .delivered))
  | .advance _ => isTrue trivial
  | .arrive .. => isTrue trivial

variable {C : Addr} {σ : System} {act : Action}

theorem ServedBy.electsOnReserved (h : ServedBy C σ act) : ElectsOnReserved σ act := by
  cases act with
  | start server request context =>
    cases request with
    | put key value => trivial
    | delete key => trivial
    | electCoordinator key coordinator => exact h
  | call run fate randomFail => trivial
  | advance run => trivial
  | arrive index context randomFail => trivial

/-- Invocations on client keys run at `C`. -/
structure RunsAt (C : Addr) (σ : System) : Prop where
  listed : ListsItself C σ
  server : ∀ (i : Nat) (inv : Invocation), σ.runs[i]? = some inv → inv.key ≠ "coordinator" →
    inv.server = C

theorem runsAt_of_reachable (h : (paxos (ListsItself C)).Reachable (ServedBy C) σ) :
    RunsAt C σ := by
  refine ActionSystem.Reachable.invariant ?_ ?_ h
  · intro σ hinit
    exact ⟨hinit.2, fun i inv hi => by simp [hinit.1.runs] at hi⟩
  · intro σ act σ' hreach hcond hstep hruns
    have hcases := step_cases hstep
    refine ⟨?_, fun i inv hi hkey => ?_⟩
    · rw [ListsItself, (step_effect hcases).stubs C]
      exact hruns.listed
    · rcases step_runs_back (provenance_of_reachable hreach).wf hcases hi with
        ⟨inv0, hi0, hev⟩ | ⟨server, request, context, rfl, _, _, rfl⟩
      · rw [hev.server]
        exact hruns.server i inv0 hi0 (hev.key ▸ hkey)
      · cases request with
        | put key value => exact hcond.1
        | delete key => exact hcond.1
        | electCoordinator key coordinator => exact absurd hcond hkey

theorem ServedBy.respects (hruns : RunsAt C σ) (h : ServedBy C σ act) {key : String}
    (hkey : key ≠ "coordinator") : Respects (· = C) key σ act := by
  cases act with
  | start server request context =>
    rintro hnone rfl
    cases request with
    | put key value =>
      refine ⟨h.1, h.2 hnone, ?_⟩
      rintro a rfl
      exact ⟨h.1 ▸ hruns.listed, hkey⟩
    | delete key =>
      refine ⟨h.1, h.2 hnone, ?_⟩
      rintro a rfl
      exact ⟨h.1 ▸ hruns.listed, hkey⟩
    | electCoordinator key coordinator => exact absurd h hkey
  | call run fate randomFail =>
    rintro inv hinv rfl
    exact h inv hinv (hruns.server run inv hinv hkey)
  | advance run => trivial
  | arrive index context randomFail => trivial

theorem exclusive_of_servedBy (h : (paxos (ListsItself C)).Reachable (ServedBy C) σ)
    {key : String} (hkey : key ≠ "coordinator") : Exclusive (· = C) key σ :=
  exclusive_of_reachable
    (fun _ _ hreach hcond => hcond.respects (runsAt_of_reachable hreach) hkey) h

/-! ## The other replicas -/

/-- What the invocation `run` leaves under its key. -/
def outcomeOf (σ : System) (run : Nat) : Option String :=
  σ.runs[run]?.bind (·.request.outcome)

/-- The entry of a replica is the outcome of the last operation it executed
or absent, the operations it executed reached their `Propose` majority and
were not answered ABORTED, and it executed them in the order of their
requests. -/
structure Trails (key : String) (a : Addr) (σ : System) : Prop where
  value : (σ.db a).getValue key =
    (σ.learned a key).head?.bind fun entry => σ.outcomeOf entry.1
  committed : ∀ entry ∈ σ.learned a key, ∃ inv, σ.runs[entry.1]? = some inv ∧
    inv.key = key ∧ IsMajority inv.acceptedBy inv.livePaxosStubs ∧ ¬ inv.Returned false
  ordered : (σ.learned a key).Pairwise fun newer older => older.1 ≤ newer.1

/-- A client request leaves its outcome, whatever was there before. -/
theorem effect_of_sound {request : Request} {listed : List Addr}
    (hsound : request.Sound listed) (hkey : request.key ≠ "coordinator")
    (before : Option String) :
    request.setProposeValue.effect before = request.outcome := by
  cases request with
  | put key value => rfl
  | delete key => rfl
  | electCoordinator key coordinator => exact absurd hsound.1 hkey

theorem trails_of_exclusive (hprov : Provenance σ) (hreplays : Replays σ) {key : String}
    (hkey : key ≠ "coordinator") (hexclusive : Exclusive (· = C) key σ) (a : Addr) :
    Trails key a σ := by
  have hfrom : ∀ entry ∈ σ.learned a key, ∃ inv, σ.runs[entry.1]? = some inv ∧
      inv.Committed ∧ inv.key = key ∧ entry.2.acceptance = inv.acceptanceOf :=
    fun entry hentry => hprov.learned_from hentry
  refine ⟨?_, ?_, ?_⟩
  · rw [hreplays.value]
    cases hlearned : σ.learned a key with
    | nil => rfl
    | cons entry older =>
      obtain ⟨inv, hi, _, hinv, hacceptance⟩ := hfrom entry (by simp [hlearned])
      have hop : entry.2.acceptance.operation = inv.request.setProposeValue := by
        rw [hacceptance, ← hexclusive.proposal hprov hi hinv]
        rfl
      have hsound := hexclusive.sound _ inv hi hinv C rfl
      have hclient : inv.request.key ≠ "coordinator" := fun heq => hkey (hinv.symm.trans heq)
      have heffect := effect_of_sound hsound hclient (replayValue older)
      rw [← hop] at heffect
      rw [List.head?_cons, Option.bind_some, outcomeOf, hi, Option.bind_some, ← heffect]
      rfl
  · intro entry hentry
    obtain ⟨inv, hi, hcommitted, hinv, _⟩ := hfrom entry hentry
    exact ⟨inv, hi, hinv, ((hprov.wf _ inv hi).committed hcommitted).2.1,
      Invocation.not_failed_of_committed hcommitted⟩
  · refine (hreplays.ordered a key).imp_of_mem fun {newer older} hnewer holder hle => ?_
    obtain ⟨inv, hi, _, hinv, hacceptance⟩ := hfrom newer hnewer
    obtain ⟨inv', hj, _, hinv', hacceptance'⟩ := hfrom older holder
    rw [hacceptance, hacceptance'] at hle
    by_contra hlt
    have := (hexclusive.serial _ _ inv inv' (not_le.mp hlt) hi hj hinv hinv').2
    exact absurd hle (not_le.mpr this)

/-- With one coordinator and a network that may lose, repeat the failure of
and delay its calls to others, the coordinator holds the acknowledged
entries, and the other replicas trail it. -/
theorem servedBy_exact (h : (paxos (ListsItself C)).Reachable (ServedBy C) σ) {key : String}
    (hkey : key ≠ "coordinator") :
    (σ.Idle key → (σ.db C).getValue key = acknowledged σ.history key) ∧
      ∀ a, Trails key a σ := by
  refine ⟨fun hidle => ?_, fun a => ?_⟩
  · have hfollows : ∀ a, a = C → FollowsAt key a σ := fun a ha =>
      followsAt_of_reachable
        (fun _ _ hreach hcond => hcond.respects (runsAt_of_reachable hreach) hkey)
        (fun _ _ hcond => hcond.electsOnReserved) h ha
    have himage := (hfollows C rfl).idle hidle
    rw [MultiPaxosServiceImpl.image, if_neg hkey] at himage
    exact himage
  · exact trails_of_exclusive (provenance_of_reachable h) (replays_of_reachable h) hkey
      (exclusive_of_servedBy h hkey) a

/-- `a` commits two requests.  The `Inform` of the first reaches `b` only after
`b` has executed the second, and `c` is down for the second. -/
def delayedInform : List Action :=
  [.start "a" (.put "k" "x")] ++ Action.loop 0 3 ++ Action.loop 0 3 ++ Action.loop 0 3 ++
    [.call 0 .delivered false, .call 0 .replyLost false, .call 0 .delivered false, .advance 0,
      .start "a" (.put "k" "y"),
      .call 1 .delivered false, .call 1 .delivered false, .call 1 .lost false, .advance 1] ++
    Action.loop 1 2 ++ Action.loop 1 2 ++ Action.loop 1 2 ++ [.arrive 0 {} false]

set_option maxRecDepth 10000 in
/-- `a` holds the second value, and the entry of `b` is the outcome of the
last operation that it executed. -/
theorem servedBy_delayedInform :
    ∃ σ : System, (σ.db "a").getValue "k" = some "y" ∧ Trails "k" "b" σ := by
  have hrun : ∃ σ ∈ (paxos (ListsItself "a")).execWhere (ServedBy "a")
      (fresh ["a", "b", "c"]) delayedInform,
      σ.Idle "k" ∧ acknowledged σ.history "k" = some "y" := by
    decide +kernel
  have hlisted : "a" ∈ (PaxosStubs.ofReplicas ["a", "b", "c"]).addrs := by decide
  have hinit : (paxos (ListsItself "a")).isInitial (fresh ["a", "b", "c"]) :=
    ⟨fresh_isInitial _, hlisted⟩
  obtain ⟨σ, hreach, hidle, hy⟩ := ActionSystem.exists_reachable_of_execWhere hinit hrun
  have hexact := servedBy_exact hreach (show "k" ≠ "coordinator" by decide)
  exact ⟨σ, (hexact.1 hidle).trans hy, hexact.2 "b"⟩

end System

end PaxosKVStore
