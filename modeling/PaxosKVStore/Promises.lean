import PaxosKVStore.Origins

/-!
# The promises of an acceptor

An acceptor gets any calls in any order.  A promise for a slot should rule out
some later calls for the same slot: `Denies`.

No handler records a promise, so the logged one is 0 in every database that a
cluster can reach, and every call leaves it there: `handle_promised`.  An
acceptor then answers a call with a positive identifier by the call alone.  It
keeps its promises exactly when, of each two calls of which the first denies
the second, one fails by itself.
-/

namespace PaxosKVStore

/-- A call that arrives at an acceptor, with the outcome of its `RandomFail`. -/
structure AcceptorCall where
  context : ServerContext := {}
  randomFail : Bool := false
  msg : Message
  deriving DecidableEq, Repr

/-- The round and the identifier of the call are positive. -/
def Message.IsPositive : Message → Prop
  | .ping => True
  | .prepare request => 0 < request.round ∧ 0 < request.proposeId
  | .propose request => 0 < request.round ∧ 0 < request.proposeId
  | .inform request => 0 < request.acceptance.round ∧ 0 < request.acceptance.proposeId

instance : ∀ msg : Message, Decidable msg.IsPositive
  | .ping => isTrue trivial
  | .prepare _ => inferInstanceAs (Decidable (_ ∧ _))
  | .propose _ => inferInstanceAs (Decidable (_ ∧ _))
  | .inform _ => inferInstanceAs (Decidable (_ ∧ _))

/-- A promise to the first call rules out an OK to the second one. -/
def Message.Denies : Message → Message → Prop
  | .prepare promised, .prepare request =>
      request.key = promised.key ∧ request.round = promised.round ∧
        request.proposeId ≤ promised.proposeId
  | .prepare promised, .propose request =>
      request.key = promised.key ∧ request.round = promised.round ∧
        request.proposeId < promised.proposeId
  | _, _ => False

/-- The client of the call gave up, or the acceptor fails at random on it. -/
def AcceptorCall.Fails (call : AcceptorCall) : Prop :=
  call.context.isCancelled = true ∨
    ∃ slot ∈ call.msg.slot, MultiPaxosServiceImpl.Rejects slot.1 call.randomFail

namespace MultiPaxosServiceImpl

/-- The answers of a server to a sequence of calls, next to the calls. -/
def answers : MultiPaxosServiceImpl → List AcceptorCall → List (AcceptorCall × Reply)
  | _, [] => []
  | s, call :: calls =>
      let (reply, s') := s.handle call.context call.randomFail call.msg
      (call, reply) :: s'.answers calls

/-- No promise is logged. -/
def NoPromise (s : MultiPaxosServiceImpl) : Prop :=
  ∀ key r, (s.kvDb.paxosLog key r).promisedId = 0

end MultiPaxosServiceImpl

/-- After an OK to a call, no call that it denies is answered OK. -/
def KeepsPromises (answers : List (AcceptorCall × Reply)) : Prop :=
  answers.Pairwise fun earlier later =>
    earlier.1.msg.Denies later.1.msg →
      earlier.2.status.ok = true → later.2.status.ok ≠ true

/-! ## What the handlers do with a promise -/

/-- An acceptance leaves the promise of its log. -/
theorem PaxosLog.promisedId_accept (log : PaxosLog) (acceptance : AcceptResponse) :
    (log.accept acceptance).promisedId = log.promisedId := rfl

/-- A call leaves the promises that are logged. -/
theorem Handled.promisedId {s s' : MultiPaxosServiceImpl} {msg : Message} {reply : Reply}
    (h : Handled s s' msg reply) (key : String) (r : Int) :
    (s'.kvDb.paxosLog key r).promisedId = (s.kvDb.paxosLog key r).promisedId := by
  rw [h.log]
  split
  · split
    · exact PaxosLog.promisedId_accept _ _
    · rfl
  · rfl

namespace MultiPaxosServiceImpl

variable {s : MultiPaxosServiceImpl}

/-- No call makes an acceptor log a promise. -/
theorem NoPromise.handle (h : s.NoPromise) (context : ServerContext) (randomFail : Bool)
    (msg : Message) : (s.handle context randomFail msg).2.NoPromise := by
  intro key r
  rw [(handle_handled s randomFail context msg).promisedId]
  exact h key r

/-- Whether an acceptor without a promise answers OK depends on the call. -/
theorem NoPromise.prepare_ok_iff (h : s.NoPromise) {call : AcceptorCall}
    {request : PrepareRequest} (hmsg : call.msg = .prepare request)
    (hid : 0 < request.proposeId) :
    (s.handle call.context call.randomFail call.msg).1.status.ok = true ↔ ¬ call.Fails := by
  obtain ⟨⟨isCancelled⟩, randomFail, msg⟩ := call
  simp only at hmsg
  subst hmsg
  cases isCancelled with
  | true => exact iff_of_false (fun hok => by cases hok) (not_not_intro (Or.inl rfl))
  | false =>
    have hiff := MultiPaxosServiceImpl.prepare_ok_iff s randomFail request
    rw [h] at hiff
    show (s.prepare {} request randomFail).1.1.ok = true ↔ _
    simpa [AcceptorCall.Fails, Message.slot, hid] using hiff

theorem NoPromise.propose_ok_iff (h : s.NoPromise) {call : AcceptorCall}
    {request : ProposeRequest} (hmsg : call.msg = .propose request)
    (hid : 0 < request.proposeId) :
    (s.handle call.context call.randomFail call.msg).1.status.ok = true ↔ ¬ call.Fails := by
  obtain ⟨⟨isCancelled⟩, randomFail, msg⟩ := call
  simp only at hmsg
  subst hmsg
  cases isCancelled with
  | true => exact iff_of_false (fun hok => by cases hok) (not_not_intro (Or.inl rfl))
  | false =>
    have hiff := MultiPaxosServiceImpl.propose_ok_iff s randomFail request
    rw [h] at hiff
    show (s.propose {} request randomFail).1.1.ok = true ↔ _
    simpa [AcceptorCall.Fails, Message.slot, hid.le] using hiff

/-! ## A sequence of calls -/

/-- The answers are to these calls. -/
theorem map_fst_answers (s : MultiPaxosServiceImpl) (calls : List AcceptorCall) :
    (s.answers calls).map Prod.fst = calls := by
  induction calls generalizing s with
  | nil => rfl
  | cons call calls ih =>
    rw [answers, List.map_cons, ih]

/-- Every answer of a sequence is given by an acceptor without a promise. -/
theorem NoPromise.of_mem_answers (h : s.NoPromise) {calls : List AcceptorCall}
    {call : AcceptorCall} {reply : Reply} (hmem : (call, reply) ∈ s.answers calls) :
    call ∈ calls ∧ ∃ s' : MultiPaxosServiceImpl, s'.NoPromise ∧
      reply = (s'.handle call.context call.randomFail call.msg).1 := by
  induction calls generalizing s with
  | nil => cases hmem
  | cons first calls ih =>
    rw [answers, List.mem_cons] at hmem
    rcases hmem with heq | hmem
    · cases heq
      exact ⟨List.mem_cons_self, s, h, rfl⟩
    · have hnext := h.handle first.context first.randomFail first.msg
      obtain ⟨hcall, s', hs', hreply⟩ := ih hnext hmem
      exact ⟨List.mem_cons_of_mem first hcall, s', hs', hreply⟩

/-- Of two calls of which the first denies the second, the first is a
`Prepare`, and the second a `Prepare` or a `Propose`.  So both are answered by
the call alone. -/
theorem NoPromise.breaks_iff (h : s.NoPromise) {calls : List AcceptorCall}
    (hpositive : ∀ call ∈ calls, call.msg.IsPositive)
    {earlier later : AcceptorCall × Reply} (hearlier : earlier ∈ s.answers calls)
    (hlater : later ∈ s.answers calls) :
    (earlier.1.msg.Denies later.1.msg →
        earlier.2.status.ok = true → later.2.status.ok ≠ true) ↔
      (earlier.1.msg.Denies later.1.msg → earlier.1.Fails ∨ later.1.Fails) := by
  obtain ⟨earlier, reply⟩ := earlier
  obtain ⟨later, reply'⟩ := later
  obtain ⟨hmem, s1, hs1, rfl⟩ := h.of_mem_answers hearlier
  obtain ⟨hmem', s2, hs2, rfl⟩ := h.of_mem_answers hlater
  have hpos := hpositive earlier hmem
  have hpos' := hpositive later hmem'
  refine imp_congr_right fun hdenies => ?_
  show (_ → _ ≠ true) ↔ earlier.Fails ∨ later.Fails
  have hfirst : (s1.handle earlier.context earlier.randomFail earlier.msg).1.status.ok = true ↔
      ¬ earlier.Fails := by
    cases hmsg : earlier.msg with
    | prepare request =>
      rw [hmsg] at hpos
      rw [← hmsg]
      exact hs1.prepare_ok_iff hmsg hpos.2
    | _ =>
      rw [hmsg] at hdenies
      exact hdenies.elim
  have hsecond : (s2.handle later.context later.randomFail later.msg).1.status.ok = true ↔
      ¬ later.Fails := by
    cases hmsg : later.msg with
    | prepare request =>
      rw [hmsg] at hpos'
      rw [← hmsg]
      exact hs2.prepare_ok_iff hmsg hpos'.2
    | propose request =>
      rw [hmsg] at hpos'
      rw [← hmsg]
      exact hs2.propose_ok_iff hmsg hpos'.2
    | _ =>
      rw [hmsg] at hdenies
      cases hmsg' : earlier.msg <;> rw [hmsg'] at hdenies <;> exact hdenies.elim
  rw [hfirst, ne_eq, hsecond, not_not]
  exact or_iff_not_imp_left.symm

end MultiPaxosServiceImpl

/-! ## The acceptors of a cluster -/

namespace Cluster

/-- No server of a cluster has a promise in its log, after any crashes and
recoveries. -/
theorem noPromise_of_reachable {setup : System → Prop} {C : Cluster → Action → Prop}
    {c : Cluster} (h : (cluster setup).Reachable C c) (a : Addr) :
    (c.system.servers a).NoPromise :=
  ((origins_of_reachable h).provenance.db a).promised

/-- From any reachable state, and for any calls with positive rounds and
identifiers: an acceptor keeps its promises exactly when of each promised call
and each later call that it denies one fails by itself. -/
theorem keepsPromises_iff {setup : System → Prop} {C : Cluster → Action → Prop} {c : Cluster}
    (h : (cluster setup).Reachable C c) (a : Addr) {calls : List AcceptorCall}
    (hpositive : ∀ call ∈ calls, call.msg.IsPositive) :
    KeepsPromises ((c.system.servers a).answers calls) ↔
      calls.Pairwise fun earlier later =>
        earlier.msg.Denies later.msg → earlier.Fails ∨ later.Fails := by
  have hnone := noPromise_of_reachable h a
  conv_rhs => rw [← MultiPaxosServiceImpl.map_fst_answers (c.system.servers a) calls]
  rw [List.pairwise_map]
  exact List.Pairwise.iff_of_mem fun hearlier hlater =>
    hnone.breaks_iff hpositive hearlier hlater

/-- A promise, and a second request for it on which the acceptor fails. -/
def promisedOnce : List AcceptorCall :=
  [{ msg := .prepare { key := "k", round := 1, proposeId := 1 } },
   { msg := .prepare { key := "k", round := 1, proposeId := 1 }, randomFail := true }]

/-- The acceptor that fails at random keeps its promise. -/
theorem keepsPromises_promisedOnce :
    KeepsPromises (((fresh ["a"]).system.servers "a").answers promisedOnce) := by
  have hreach : (cluster (System.SharesReplicas (.ofReplicas ["a"]))).Reachable
      (fun _ _ => True) (fresh ["a"]) := .start ⟨fresh_isInitial ["a"], fun _ => rfl⟩
  refine (keepsPromises_iff hreach "a" (by decide)).mpr ?_
  refine List.pairwise_pair.mpr fun _ => Or.inr (Or.inr ⟨("k", 1), rfl, ?_⟩)
  exact ⟨by decide, rfl⟩

/-- Two requests with the same identifier for one slot. -/
def promisedTwice : List AcceptorCall :=
  [{ msg := .prepare { key := "k", round := 1, proposeId := 1 } },
   { msg := .prepare { key := "k", round := 1, proposeId := 1 } }]

/-- A fresh acceptor promises the same slot and identifier twice. -/
theorem not_keepsPromises_promisedTwice :
    ∃ c : Cluster, (cluster (System.SharesReplicas (.ofReplicas ["a"]))).Reachable
      (fun _ _ => True) c ∧ (∀ call ∈ promisedTwice, call.msg.IsPositive) ∧
      ¬ KeepsPromises ((c.system.servers "a").answers promisedTwice) := by
  refine ⟨fresh ["a"], .start ⟨fresh_isInitial ["a"], fun _ => rfl⟩, by decide, fun h => ?_⟩
  have hpair := List.pairwise_pair.mp h
  exact hpair ⟨rfl, rfl, le_refl _⟩ (by decide) (by decide)

end Cluster

end PaxosKVStore
