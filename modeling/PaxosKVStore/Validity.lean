import PaxosKVStore.CallByCall
import PaxosKVStore.Rounds

/-!
# Nothing is made up

Whatever cannot be reached, fails or crashes, the servers of a deployment have
only what clients asked for.  Every value in a data map was put under its key,
and so was every value that a client got before.  Every operation in a log was
asked for under the key of the log, and the rounds of a key do not outrun its
updates.  An update may be stored although its client was told that it failed.

The cluster knows where its entries come from, and `Implements` carries this
over to the deployment.
-/

namespace PaxosKVStore

namespace Deployment

/-- An update of `key` that asks for `op` was run by a server, and answered. -/
def Asked (answers : List Answered) (key : String) (op : Operation) : Prop :=
  ∃ x ∈ answers, ∃ update handler, x.request.update = some update ∧ update.key = key ∧
    update.setProposeValue = op ∧ x.answer.handledBy = some handler

/-- The number of updates of `key` that were run and answered. -/
def updatesOn (answers : List Answered) (key : String) : Nat :=
  ((updates answers).filter fun x => x.2.1.key = key).length

/-- The servers have only what was asked for. -/
structure Stored (d : Deployment) : Prop where
  values : ∀ a key value, (d.servers a).kvDb.getValue key = some value →
    Asked d.answers key { type := .set, value := value }
  logs : ∀ a key r, key ≠ "coordinator" → 0 < ((d.servers a).kvDb.paxosLog key r).acceptedId →
    Asked d.answers key ((d.servers a).kvDb.paxosLog key r).operation
  rounds : ∀ a key, key ≠ "coordinator" → ∀ r ∈ (d.servers a).kvDb.rounds key,
    1 ≤ r ∧ r ≤ updatesOn d.answers key

/-- A client got only what was put before. -/
def Reads (answers : List Answered) : Prop :=
  ∀ later x earlier key, answers = later ++ x :: earlier → x.request = .get key →
    x.answer.status.ok = true →
      Asked earlier key { type := .set, value := x.answer.response.value }

theorem asked_of_mem_updates {answers : List Answered} {handler : Addr} {update : Request}
    {code : StatusCode} (h : (handler, update, code) ∈ updates answers) :
    Asked answers update.key update.setProposeValue := by
  obtain ⟨x, hx, hran⟩ := List.mem_filterMap.mp h
  obtain ⟨update', hupdate, hhandled⟩ := Option.bind_eq_some_iff.mp hran
  split at hhandled
  · cases hhandled
  · obtain ⟨_, hby, heq⟩ := Option.map_eq_some_iff.mp hhandled
    cases heq
    exact ⟨x, hx, update, handler, hupdate, rfl, rfl, hby⟩

/-! ## What the cluster knows -/

section Cluster

variable {stubs : PaxosStubs} {setup : System → Prop} {d : Deployment} {c : Cluster}
  {key : String} {op : Operation}

/-- An invocation on another key than the reserved one has run an update. -/
theorem ran_of_key {inv : Invocation} {status : Status}
    (hadmitted : inv.request.Admitted c.system.servers) (hkey : inv.key ≠ "coordinator")
    (hreturned : inv.phase = .returned status) :
    inv.ran = some (inv.server, inv.request, status.code) := by
  rw [Invocation.ran_of_returned hreturned]
  rw [Invocation.key] at hkey
  generalize inv.request = request at hadmitted hkey ⊢
  cases hadmitted with
  | update hupdate _ => exact if_pos hupdate
  | election hlisted => exact absurd rfl hkey

/-- What was asked for in the cluster was asked for by a client. -/
theorem Implements.asked (h : Implements stubs d c) (hasked : c.AskedFor key op)
    (hkey : key ≠ "coordinator") : Asked d.answers key op := by
  obtain ⟨i, inv, hi, rfl, hadmitted, rfl⟩ := hasked
  have hinv := List.mem_of_getElem? hi
  obtain ⟨status, hreturned⟩ := h.returned inv hinv
  have hran : (inv.server, inv.request, status.code) ∈
      c.system.runs.filterMap Invocation.ran :=
    List.mem_filterMap.mpr ⟨inv, hinv, ran_of_key hadmitted hkey hreturned⟩
  rw [h.ran, List.mem_reverse] at hran
  exact asked_of_mem_updates hran

/-- The invocations on a key are the updates of it. -/
theorem Implements.startedOn (h : Implements stubs d c) (horigins : Cluster.Origins c)
    (hkey : key ≠ "coordinator") : c.system.startedOn key = updatesOn d.answers key := by
  rw [System.startedOn, updatesOn, ← List.countP_eq_length_filter,
    ← List.countP_eq_length_filter, ← List.countP_reverse (l := updates _), ← h.ran,
    List.countP_filterMap]
  refine List.countP_congr fun inv hinv => ?_
  obtain ⟨i, hi⟩ := List.mem_iff_getElem?.mp hinv
  obtain ⟨status, hreturned⟩ := h.returned inv hinv
  by_cases hinvKey : inv.request.key = key
  · have hran := ran_of_key (horigins.admitted i inv hi)
      (fun hreserved => hkey (hinvKey.symm.trans hreserved)) hreturned
    simp [hran, hinvKey, Invocation.key]
  · rw [Invocation.ran_of_returned hreturned]
    split <;> simp [Invocation.key, hinvKey]

/-- What the cluster knows about its entries, the deployment knows. -/
theorem Implements.stored (h : Implements stubs d c)
    (hreach : (cluster setup).Reachable (fun _ _ => True) c) : Stored d := by
  have hknown := Cluster.known_of_reachable hreach
  constructor
  case values =>
    intro a key value hvalue
    rw [← h.servers] at hvalue
    have hasked := hknown.askedFor (.value hvalue)
    refine h.asked hasked fun hkey => ?_
    have htype := hasked.type_iff.mpr hkey
    cases htype
  case logs =>
    intro a key r hkey haccepted
    rw [← h.servers] at haccepted ⊢
    exact h.asked (hknown.askedFor (.log haccepted)) hkey
  case rounds =>
    intro a key hkey r hr
    rw [← h.servers] at hr
    have hchosen := System.mem_chosenRounds.mpr ((hknown.origins.provenance.db a).rounds key r hr)
    have hbounds := (Cluster.contiguous_of_reachable hreach key).bounds hchosen
    rwa [System.length_chosenRounds, h.startedOn hknown.origins hkey] at hbounds

/-- In every run. -/
theorem stored_of_reachable (h : (deployment stubs).Reachable (fun _ _ => True) d) : Stored d := by
  obtain ⟨c, hreach, himplements⟩ := implements_of_reachable h
  exact himplements.stored hreach

end Cluster

/-! ## What a client gets -/

section Reads

variable {stubs : PaxosStubs} {servers servers' : Servers} {reach : Addr → Bool}
  {randomFail : Message → Addr → Bool} {server : Addr} {request : ClientRequest}
  {answer : Answer} {key : String} {d d' : Deployment} {act : Action}

/-- Only a server that can be reached runs an election. -/
theorem reach_of_election {status : Status} {chosen : Servers}
    (hsound : ∀ a, SoundServer stubs a (servers a))
    (h : servers.electNewCoordinator (.within reach randomFail) server = some (status, chosen))
    (hok : status.ok = true) : reach server = true := by
  have hstub := Cluster.getStub_of_electNewCoordinator hsound h
  rw [(hsound server).address] at hstub
  unfold Servers.electNewCoordinator at h
  simp only [(hsound server).address, hstub] at h
  cases hreach : reach server with
  | true => rfl
  | false =>
    have hlost : (StartUp.within reach randomFail).election server = .lost :=
      if_neg (by simp [hreach])
    simp only [hlost, Option.some.injEq, Prod.mk.injEq] at h
    obtain ⟨rfl, _⟩ := h
    cases hok

/-- A GET that was answered OK returned a value that some server has. -/
theorem value_of_get (hsound : ∀ a, SoundServer stubs a (servers a))
    (h : servers.requestFlow reach randomFail server (.get key) = some (answer, servers'))
    (hok : answer.status.ok = true) :
    ∃ a, (servers' a).kvDb.getValue key = some answer.response.value := by
  obtain ⟨chosen, _, ⟨hby, _, hnone⟩ | ⟨handler, _, handled, heq, _, hresponse, hcode⟩⟩ :=
    requestFlow_cases h
  · obtain ⟨status, hstatus, helection, _⟩ := hnone hok
    have hhandled := handled_of_ok hsound (reach_of_election hsound helection hstatus) h hok
    rw [hby] at hhandled
    cases hhandled
  · rw [handleRequest_get rfl, Prod.mk.injEq] at heq
    obtain ⟨rfl, rfl⟩ := heq
    refine ⟨handler, ?_⟩
    rw [Status.ok, decide_eq_true_iff, hcode] at hok
    rw [hresponse]
    simp only [MultiPaxosServiceImpl.getValue, Bool.false_eq_true, if_false] at hok ⊢
    split at hok
    · cases hok
    · rename_i hkey
      rw [if_neg hkey]
      split at hok
      · cases hok
      · rename_i value hvalue
        exact hvalue

/-- A request leaves it so that clients get only what was put. -/
theorem reads_step (hsound : Sound stubs d) (hstored : Stored d')
    (hstep : step stubs d act = some d') (h : Reads d.answers) : Reads d'.answers := by
  cases step_cases hstep with
  | started hdown hlisted hinit hok => exact h
  | ended hdown hlisted hinit => exact h
  | crashed hup => exact h
  | answered hup hflow =>
    intro later x earlier key hanswers hget hok
    rw [List.cons_eq_append_iff] at hanswers
    obtain ⟨rfl, hcons⟩ | ⟨later', rfl, htail⟩ := hanswers
    · obtain ⟨rfl, rfl⟩ := List.cons.inj hcons
      subst hget
      obtain ⟨a, hvalue⟩ := value_of_get hsound.servers hflow hok
      obtain ⟨y, hy, update, handler, hupdate, hasked⟩ := hstored.values a key _ hvalue
      refine ⟨y, (List.mem_cons.mp hy).resolve_left ?_, update, handler, hupdate, hasked⟩
      rintro rfl
      cases hupdate
    · exact h later' x earlier key htail hget hok

end Reads

variable {stubs : PaxosStubs} {d : Deployment}

/-- In every run the servers have, and the clients got, only what was asked for. -/
theorem valid_of_reachable (h : (deployment stubs).Reachable (fun _ _ => True) d) :
    Stored d ∧ Reads d.answers := by
  refine ⟨stored_of_reachable h, h.invariant (I := fun d => Reads d.answers) ?_ ?_⟩
  · rintro d rfl later x earlier key hanswers
    simp [initial] at hanswers
  · intro d act d' hreach hcond hstep hreads
    exact reads_step (sound_of_reachable hreach) (stored_of_reachable (hreach.next hcond hstep))
      hstep hreads

/-- `b` alone accepts the first PUT, and its client is told that it failed. -/
def failedPutRead : List Action :=
  startServers ++
    [.request "a" (.put "k" "x") ["a", "b"] fun msg a =>
        match msg with
        | .propose _ => a = "a"
        | _ => false,
      .crash "a", .request "c" (.put "k" "y") ["b", "c"] fun _ _ => false,
      .request "c" (.get "k") ["b", "c"] fun _ _ => false]

set_option maxRecDepth 10000 in
/-- The second PUT stores the value of the first one, and a GET returns it. -/
theorem valid_failedPutRead :
    ∃ d : Deployment, d.answers.map (fun x => (x.request, x.answer.status.code)) =
        [(.get "k", .ok), (.put "k" "y", .ok), (.put "k" "x", .aborted)] ∧
      (d.servers "c").kvDb.getValue "k" = some "x" ∧
      Asked d.answers "k" { type := .set, value := "x" } ∧ Reads d.answers := by
  have hrun : ∃ d ∈ (deployment (.ofReplicas ["a", "b", "c"])).execWhere (fun _ _ => True)
      (initial (.ofReplicas ["a", "b", "c"])) failedPutRead,
      d.answers.map (fun x => (x.request, x.answer.status.code)) =
        [(.get "k", .ok), (.put "k" "y", .ok), (.put "k" "x", .aborted)] ∧
      (d.servers "c").kvDb.getValue "k" = some "x" := by
    decide +kernel
  obtain ⟨d, hreach, hanswers, hvalue⟩ := ActionSystem.exists_reachable_of_execWhere rfl hrun
  obtain ⟨hstored, hreads⟩ := valid_of_reachable hreach
  exact ⟨d, hanswers, hvalue, hstored.values "c" "k" "x" hvalue, hreads⟩

end Deployment

end PaxosKVStore
