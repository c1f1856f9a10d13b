import PaxosKVStore.Elections
import PaxosKVStore.Following

/-!
# The store refines the atomic map

Every request may be handled by any replica, and every call is delivered, but
invocations on one key do not overlap.  Then the replicas all hold the
acknowledged map whenever the key is idle, which is the atomic map after
exactly the requests that returned OK.

The condition is an instance of `Respects` with all replicas in `A`, for
every key at once.
-/

namespace PaxosKVStore

/-- The value that a client can ask for.  The reserved key has none. -/
def AtomicMap.value (map : AtomicMap) (key : String) : Option String :=
  if key = "coordinator" then none else map key

/-- What `GetValue` answers for an entry. -/
def getAnswer : Option String → Status × GetResponse
  | none => ({ code := .notFound, message := "Key not found." }, {})
  | some value => (Status.OK, { value := value })

/-- An election is on the reserved key and nominates a listed address. -/
def Request.ElectsAmong (listed : List Addr) : Request → Prop
  | .electCoordinator key coordinator => key = "coordinator" ∧ coordinator ∈ listed
  | _ => True

instance (listed : List Addr) (request : Request) : Decidable (request.ElectsAmong listed) :=
  match request with
  | .put .. => isTrue trivial
  | .delete _ => isTrue trivial
  | .electCoordinator key coordinator =>
      inferInstanceAs (Decidable (key = "coordinator" ∧ coordinator ∈ listed))

namespace System

/-- Requests reach listed replicas and elections nominate one on the reserved
key, invocations on one key do not overlap, and every call is delivered. -/
def OneAtATime (stubs : PaxosStubs) (σ : System) : Action → Prop
  | .start server request context =>
      server ∈ stubs.addrs ∧ request.ElectsAmong stubs.addrs ∧
        (request.refusal context = none → σ.Idle request.key)
  | .call _ fate _ => fate = .delivered
  | .advance _ => True
  | .arrive .. => False

instance (stubs : PaxosStubs) (σ : System) (act : Action) : Decidable (OneAtATime stubs σ act) :=
  match act with
  | .start server request context =>
      inferInstanceAs (Decidable (server ∈ stubs.addrs ∧ request.ElectsAmong stubs.addrs ∧
        (request.refusal context = none → σ.Idle request.key)))
  | .call _ fate _ => inferInstanceAs (Decidable (fate = .delivered))
  | .advance _ => isTrue trivial
  | .arrive .. => isFalse id

variable {stubs : PaxosStubs} {σ : System}

theorem OneAtATime.delivered {act : Action} (h : OneAtATime stubs σ act) : Delivered σ act := by
  cases act with
  | start server request context => trivial
  | call run fate randomFail => exact h
  | advance run => trivial
  | arrive index context randomFail => exact h

theorem OneAtATime.electsOnReserved {act : Action} (h : OneAtATime stubs σ act) :
    ElectsOnReserved σ act := by
  cases act with
  | start server request context =>
    cases request with
    | put key value => trivial
    | delete key => trivial
    | electCoordinator key coordinator => exact h.2.1.1
  | call run fate randomFail => trivial
  | advance run => trivial
  | arrive index context randomFail => trivial

/-- A client request that is not refused is off the reserved key. -/
theorem sound_of_refusal {request : Request} {context : ServerContext} {listed : List Addr}
    (h : request.refusal context = none)
    (helection : request.ElectsAmong listed) : request.Sound listed := by
  cases request with
  | put key value =>
    intro hkey
    obtain ⟨_, heq⟩ := Request.election_of_refusal h hkey
    cases heq
  | delete key =>
    intro hkey
    obtain ⟨_, heq⟩ := Request.election_of_refusal h hkey
    cases heq
  | electCoordinator key coordinator => exact helection

theorem OneAtATime.respects {act : Action} (hlossless : Lossless stubs σ)
    (h : OneAtATime stubs σ act) (key : String) : Respects (· ∈ stubs.addrs) key σ act := by
  cases act with
  | start server request context =>
    rintro hnone rfl
    refine ⟨h.1, h.2.2 hnone, fun a ha => ?_⟩
    rw [hlossless.shares server, hlossless.shares a]
    exact ⟨ha, sound_of_refusal hnone h.2.1⟩
  | call run fate randomFail => exact fun _ _ _ _ _ _ => h
  | advance run => trivial
  | arrive index context randomFail => trivial

/-! ## The reserved key has no value -/

/-- Every request on the reserved key is an election. -/
def ReservedForElections (σ : System) : Prop :=
  ∀ (i : Nat) (inv : Invocation), σ.runs[i]? = some inv → inv.key = "coordinator" →
    inv.request.setProposeValue.type = .setCoordinator

theorem reservedForElections_of_reachable {setup : System → Prop}
    {C : System → Action → Prop} (h : (paxos setup).Reachable C σ) :
    ReservedForElections σ := by
  refine ActionSystem.Reachable.invariant ?_ ?_ h
  · intro σ hinit i inv hi
    simp [hinit.1.runs] at hi
  · intro σ act σ' hreach _ hstep hreserved i inv hi hkey
    rcases step_runs_back (provenance_of_reachable hreach).wf (step_cases hstep) hi with
      ⟨inv0, hi0, hev⟩ | ⟨server, request, context, rfl, hnone, _, rfl⟩
    · rw [hev.request]
      exact hreserved i inv0 hi0 (hev.key ▸ hkey)
    · obtain ⟨coordinator, rfl⟩ := Request.election_of_refusal hnone hkey
      rfl

/-- Operations that set a coordinator leave no value behind. -/
theorem replayValue_eq_none {learned : List (Nat × InformRequest)}
    (h : ∀ entry ∈ learned, entry.2.acceptance.operation.type = .setCoordinator) :
    replayValue learned = none := by
  induction learned with
  | nil => rfl
  | cons entry older ih =>
    have hold := ih fun entry' hentry' => h entry' (List.mem_cons_of_mem _ hentry')
    show entry.2.acceptance.operation.effect (replayValue older) = none
    rw [Operation.effect, h entry List.mem_cons_self]
    exact hold

/-- No data map binds the reserved key. -/
theorem getValue_reserved (hprov : Provenance σ) (hreplays : Replays σ)
    (hreserved : ReservedForElections σ) (a : Addr) :
    (σ.db a).getValue "coordinator" = none := by
  rw [hreplays.value]
  refine replayValue_eq_none fun entry hentry => ?_
  obtain ⟨inv, hi, hcommitted, hkey, hacceptance⟩ := hprov.learned_from hentry
  obtain ⟨j, inv', hj, hkey', _, _, _, hown⟩ := proposalFrom_proposal hi
    (hprov.adopted _ inv hi) ((hprov.wf _ inv hi).proposed_of_committed hcommitted)
  rw [hacceptance]
  show inv.proposal.type = .setCoordinator
  rw [hown]
  exact hreserved j inv' hj (hkey'.trans hkey)

/-! ## The refinement -/

theorem lossless_of_oneAtATime
    (h : (paxos (SharesReplicas stubs)).Reachable (OneAtATime stubs) σ) : Lossless stubs σ :=
  lossless_of_reachable (fun _ _ hcond => hcond.delivered) h

theorem exclusive_of_oneAtATime
    (h : (paxos (SharesReplicas stubs)).Reachable (OneAtATime stubs) σ) (key : String) :
    Exclusive (· ∈ stubs.addrs) key σ := by
  refine exclusive_of_reachable (fun σ act hreach hcond => ?_) h
  exact hcond.respects (lossless_of_oneAtATime hreach) key

theorem followsAt_of_oneAtATime
    (h : (paxos (SharesReplicas stubs)).Reachable (OneAtATime stubs) σ) (key : String)
    {a : Addr} (ha : a ∈ stubs.addrs) : FollowsAt key a σ := by
  refine followsAt_of_reachable (fun σ act hreach hcond => ?_)
    (fun σ act hcond => hcond.electsOnReserved) h ha
  exact hcond.respects (lossless_of_oneAtATime hreach) key

/-- While the key is idle, every replica's entry is the acknowledged one. -/
theorem getValue_of_idle
    (h : (paxos (SharesReplicas stubs)).Reachable (OneAtATime stubs) σ) {key : String}
    (hidle : σ.Idle key) {a : Addr} (ha : a ∈ stubs.addrs) :
    (σ.db a).getValue key = (acknowledged σ.history).value key := by
  unfold AtomicMap.value
  split
  · rename_i hkey
    rw [hkey]
    exact getValue_reserved (provenance_of_reachable h) (replays_of_reachable h)
      (reservedForElections_of_reachable h) a
  · rename_i hkey
    have himage := (followsAt_of_oneAtATime h key ha).idle hidle
    rw [MultiPaxosServiceImpl.image, if_neg hkey] at himage
    exact himage

/-- The key is idle as soon as its running invocation returns. -/
theorem idle_of_return {A : Addr → Prop} {key : String} (hexclusive : Exclusive A key σ)
    {run : Nat} {inv0 inv1 : Invocation} (hrun : σ.runs[run]? = some inv0)
    (hkey0 : inv0.key = key) (hactive : inv0.Active) (hnot : ¬ inv1.Active) {σ' : System}
    (hruns : σ'.runs = σ.runs.set run inv1) : σ'.Idle key := by
  intro inv hmem hkey
  obtain ⟨j, hj⟩ := List.getElem?_of_mem hmem
  rw [hruns] at hj
  rcases getElem?_set_cases hrun hj with ⟨_, rfl⟩ | ⟨hne, hj⟩
  · exact hnot
  · intro hactive'
    exact hne (hexclusive.eq_of_active hj hrun hkey hkey0 hactive' hactive)

/-- An election that returns has made its nominee the coordinator everywhere. -/
theorem coordinator_of_return (hne : stubs.addrs ≠ [])
    (h : (paxos (SharesReplicas stubs)).Reachable (OneAtATime stubs) σ) {act : Action}
    {σ' : System} (hcond : OneAtATime stubs σ act) (hstep : σ.step act = some σ') {i : Nat}
    {nominee : Addr} {status : Status}
    (hreturned : σ'.history =
      .returned i (.electCoordinator "coordinator" nominee) status :: σ.history) :
    status.ok = true ∧
      ∀ a ∈ stubs.addrs, (σ'.servers a).paxosStubsMap.coordinator = nominee := by
  have h' : (paxos (SharesReplicas stubs)).Reachable (OneAtATime stubs) σ' :=
    .next h hcond hstep
  have hlen := congrArg List.length hreturned
  cases step_cases hstep with
  | refuse hrefusal => cases hreturned
  | enter hrefusal => simp at hlen
  | call fate randomFail hrun hcall =>
    cases fate <;> cases hreturned
  | arrive context randomFail hindex => cases hreturned
  | @advance run inv0 inv1 hrun hadvance =>
    have hmem : .returned i (.electCoordinator "coordinator" nominee) status ∈
        ((σ.setRun run inv1).noteReturn run inv1).history := by
      rw [hreturned]
      exact List.mem_cons_self
    obtain ⟨inv, hi, hrequest, hphase⟩ := (provenance_of_reachable h').returned _ _ _ hmem
    have hkey : inv.key = "coordinator" := by rw [Invocation.key, hrequest, Request.key]
    have hok : status.ok = true := election_ok hne (lossless_of_oneAtATime h')
      (electionsUnanimous_of_reachable (fun _ _ hcond => hcond.delivered) h') hi hkey hphase
    refine ⟨hok, fun a ha => ?_⟩
    -- the only event of the step is the return of the invocation that advanced
    have hself : inv1.phase = .returned status ∧ i = run := by
      unfold noteReturn at hreturned
      split at hreturned
      · rename_i status' hphase'
        simp only [setRun, List.cons.injEq, Event.returned.injEq] at hreturned
        exact ⟨hreturned.1.2.2 ▸ hphase', hreturned.1.1.symm⟩
      · simp [setRun] at hreturned
    obtain ⟨hphase1, rfl⟩ := hself
    have hidle : ((σ.setRun i inv1).noteReturn i inv1).Idle "coordinator" := by
      rw [noteReturn_runs, setRun, getElem?_set_self' hrun] at hi
      cases hi
      refine idle_of_return (exclusive_of_oneAtATime h "coordinator") hrun ?_ hadvance.active
        (by simp [Invocation.Active, hphase]) (noteReturn_runs ..)
      rw [← hkey]
      cases hadvance <;> rfl
    have himage := (followsAt_of_oneAtATime h' "coordinator" ha).idle hidle
    rw [hreturned, acknowledged, if_pos hok, MultiPaxosServiceImpl.image, if_pos rfl] at himage
    exact Option.some.inj (himage.trans (AtomicMap.apply_self _ _))

/-- The replicated store refines the atomic map: whenever a key is idle every
replica holds the effect of the requests that returned OK, and `GetValue`
answers accordingly; what returned with an error changed no data map; and
every election returns OK and leaves its nominee everywhere. -/
theorem refines_atomicMap (hne : stubs.addrs ≠ [])
    (h : (paxos (SharesReplicas stubs)).Reachable (OneAtATime stubs) σ) :
    (∀ key, σ.Idle key → ∀ a ∈ stubs.addrs,
      (σ.db a).getValue key = (acknowledged σ.history).value key) ∧
    (∀ key, key ≠ "coordinator" → σ.Idle key → ∀ a ∈ stubs.addrs,
      (σ.servers a).getValue {} { key := key } =
        getAnswer ((acknowledged σ.history).value key)) ∧
    (∀ i request status, .returned i request status ∈ σ.history → status.ok = false →
      ∀ a msg reply, .handled i a msg reply true ∉ σ.history) ∧
    (∀ server request context status, request.refusal context = some status →
      (σ.start server request context).servers = σ.servers) ∧
    (∀ act σ' i nominee status, OneAtATime stubs σ act → σ.step act = some σ' →
      σ'.history = .returned i (.electCoordinator "coordinator" nominee) status :: σ.history →
      status.ok = true ∧
        ∀ a ∈ stubs.addrs, (σ'.servers a).paxosStubsMap.coordinator = nominee) := by
  refine ⟨fun key hidle a ha => getValue_of_idle h hidle ha, ?_, ?_, ?_, ?_⟩
  · intro key hkey hidle a ha
    have hvalue := getValue_of_idle h hidle ha
    rw [db] at hvalue
    simp only [MultiPaxosServiceImpl.getValue, Bool.false_eq_true, if_false, if_neg hkey,
      hvalue]
    cases (acknowledged σ.history).value key <;> rfl
  · intro i request status hreturned hno
    exact unchanged_of_returned (provenance_of_reachable h) (changesExecuted_of_reachable h)
      hreturned hno
  · intro server request context status hrefusal
    rw [start, hrefusal]
  · intro act σ' i nominee status hcond hstep hreturned
    exact coordinator_of_return hne h hcond hstep hreturned

/-- A `PutPair` on `a`, one on `b` that fails its promise quorum, and an
election of `c` handled by `b`, with a `DeletePair` on another key running
all the time. -/
def mixedRequests : List Action :=
  [.start "c" (.delete "l"), .start "a" (.put "k" "x")] ++
    Action.loop 1 3 ++ Action.loop 1 3 ++ Action.loop 0 3 ++ Action.loop 1 3 ++
    Action.loop 1 3 ++ [.start "b" (.put "k" "y")] ++ Action.loop 2 3 ++
    [.call 2 .delivered true, .call 2 .delivered true, .call 2 .delivered false, .advance 2] ++
    [.start "b" (.electCoordinator "coordinator" "c")] ++ Action.loop 3 3 ++
    Action.loop 3 3 ++ Action.loop 0 3 ++ Action.loop 3 3 ++ Action.calls 3 3

set_option maxRecDepth 10000 in
/-- The replicas hold the first value, and the election ends with `c`. -/
theorem refines_mixedRequests :
    ∃ σ σ' : System, σ.step (.advance 3) = some σ' ∧
      (∀ a ∈ ["a", "b", "c"], (σ.db a).getValue "k" = some "x") ∧
      ∀ a ∈ ["a", "b", "c"], (σ'.servers a).paxosStubsMap.coordinator = "c" := by
  have hrun : ∃ σ ∈ (paxos (SharesReplicas (.ofReplicas ["a", "b", "c"]))).execWhere
      (OneAtATime (.ofReplicas ["a", "b", "c"])) (fresh ["a", "b", "c"]) mixedRequests,
      σ.Idle "k" ∧ (acknowledged σ.history).value "k" = some "x" ∧
        ∃ σ' ∈ σ.step (.advance 3), ∃ e ∈ σ'.history.head?, σ'.history.tail = σ.history ∧
          e = .returned 3 (.electCoordinator "coordinator" "c") Status.OK := by
    decide +kernel
  obtain ⟨σ, hreach, hidle, hx, σ', hstep, e, he, htail, rfl⟩ := exists_reachable_fresh hrun
  have hrefines := refines_atomicMap (by decide) hreach
  refine ⟨σ, σ', hstep, fun a ha => ?_, ?_⟩
  · rw [hrefines.1 "k" hidle a ha, hx]
  · refine (hrefines.2.2.2.2 (.advance 3) σ' 3 "c" Status.OK trivial hstep ?_).2
    rw [← htail]
    exact (List.cons_head?_tail he).symm

end System

end PaxosKVStore
