import PaxosKVStore.Steady

/-!
# What the clients print

`Client.line` is what the client prints about an answer.  While the first
server stays up and nothing fails at random, the clients of all servers print
what they would print if there was one map that never fails: the values, the
missing keys and the refused keyword, with the texts of their errors.  Nothing
that happens to the other servers shows.
-/

namespace PaxosKVStore

open Reference (peers Updated)

/-- The number of a code, as the client prints it. -/
def StatusCode.number : StatusCode → Nat
  | .ok => 0
  | .cancelled => 1
  | .unknown => 2
  | .invalidArgument => 3
  | .deadlineExceeded => 4
  | .notFound => 5
  | .alreadyExists => 6
  | .permissionDenied => 7
  | .resourceExhausted => 8
  | .failedPrecondition => 9
  | .aborted => 10
  | .outOfRange => 11
  | .unimplemented => 12
  | .internal => 13
  | .unavailable => 14
  | .dataLoss => 15
  | .unauthenticated => 16

namespace Client

/-- The last line that `GetValue`, `PutPair` or `DeletePair` of the client
prints, without the time stamp. -/
def line (request : ClientRequest) (answer : Answer) : String :=
  if answer.status.ok then
    match request with
    | .get key => key ++ " : " ++ answer.response.value
    | .put key value => "Pair (" ++ key ++ ", " ++ value ++ ") is now added to the store."
    | .delete key => "Key (" ++ key ++ ") is deleted."
  else
    "Error Code " ++ toString answer.status.code.number ++ ". " ++ answer.status.message

/-- Who handled the request is not printed. -/
theorem line_congr {answer answer' : Answer} (request : ClientRequest)
    (hstatus : answer.status = answer'.status) (hresponse : answer.response = answer'.response) :
    line request answer = line request answer' := by
  unfold line
  rw [hstatus, hresponse]

end Client

/-! ## The map that never fails -/

namespace AtomicMap

def answer (map : AtomicMap) (request : ClientRequest) : Answer :=
  if request.key = "coordinator" then
    { status := { code := .aborted, message := "Illegal keyword" } }
  else
    match request with
    | .get key =>
        match map key with
        | none => { status := { code := .notFound, message := "Key not found." } }
        | some value => { status := Status.OK, response := { value := value } }
    | .put _ _ => { status := Status.OK }
    | .delete _ => { status := Status.OK }

def after (map : AtomicMap) (request : ClientRequest) : AtomicMap :=
  if request.key = "coordinator" then map
  else
    match request.update with
    | none => map
    | some update => map.apply update

/-- What is printed about the requests, handled one after the other. -/
def transcript (map : AtomicMap) : List ClientRequest → List String
  | [] => []
  | request :: requests =>
      Client.line request (map.answer request) :: (map.after request).transcript requests

/-- Only the entries of the clients are asked for. -/
theorem answer_congr {map map' : AtomicMap} (request : ClientRequest)
    (h : ∀ key, key ≠ "coordinator" → map key = map' key) :
    map.answer request = map'.answer request := by
  unfold answer
  by_cases hkey : request.key = "coordinator"
  · rw [if_pos hkey, if_pos hkey]
  · rw [if_neg hkey, if_neg hkey]
    cases request with
    | get key =>
      have hentry : map key = map' key := h key hkey
      simp only [hentry]
    | put key value => rfl
    | delete key => rfl

theorem after_congr {map map' : AtomicMap} (request : ClientRequest)
    (h : ∀ key, key ≠ "coordinator" → map key = map' key) {key : String}
    (hkey : key ≠ "coordinator") : map.after request key = map'.after request key := by
  unfold after
  split
  · exact h key hkey
  · cases request.update with
    | none => exact h key hkey
    | some update =>
      show map.apply update key = map'.apply update key
      by_cases hsame : update.key = key
      · rw [← hsame, apply_self, apply_self]
      · rw [apply_of_ne map hsame, apply_of_ne map' hsame, h key hkey]

theorem transcript_append (map : AtomicMap) (requests : List ClientRequest)
    (request : ClientRequest) :
    map.transcript (requests ++ [request]) =
      map.transcript requests ++
        [Client.line request ((requests.foldl after map).answer request)] := by
  induction requests generalizing map with
  | nil => rfl
  | cons first rest ih => simp only [List.cons_append, transcript, ih, List.foldl_cons]

end AtomicMap

/-! ## One request -/

section Handled

variable {stubs : PaxosStubs} {servers servers' : Servers} {map : AtomicMap} {handler : Addr}
  {reach : Addr → Bool} {randomFail : Message → Addr → Bool} {request : ClientRequest}
  {handled : Answer}

/-- Without random failures a handler that holds the entries of the map answers
as the map, and holds its entries afterwards. -/
theorem exact_handleRequest (hsound : ∀ a, SoundServer stubs a (servers a))
    (hhandler : handler ∈ peers stubs reach)
    (hvalue : ∀ key, key ≠ "coordinator" → (servers handler).kvDb.getValue key = map key)
    (hfresh : ∀ a ∈ peers stubs reach, ∀ key, ∀ r ∈ (servers a).kvDb.rounds key,
      r ≤ (servers handler).kvDb.latestRound key)
    (hreliable : ∀ msg, ∀ a ∈ peers stubs reach, randomFail msg a = false)
    (hhandled : servers.handleRequest (.within reach randomFail) handler request =
      (handled, servers')) :
    handled.status = (map.answer request).status ∧
      handled.response = (map.answer request).response ∧
      ∀ key, key ≠ "coordinator" →
        (servers' handler).kvDb.getValue key = map.after request key := by
  by_cases hreserved : request.key = "coordinator"
  · -- every handler refuses the reserved key
    unfold AtomicMap.answer AtomicMap.after
    rw [if_pos hreserved, if_pos hreserved]
    cases request <;> obtain rfl : _ = "coordinator" := hreserved <;> cases hhandled <;>
      exact ⟨rfl, rfl, hvalue⟩
  unfold AtomicMap.answer AtomicMap.after
  rw [if_neg hreserved, if_neg hreserved]
  cases hrequest : request.update with
  | none =>
    rw [handleRequest_get hrequest] at hhandled
    cases hhandled
    cases request with
    | get key =>
      have hentry := hvalue key hreserved
      simp only [MultiPaxosServiceImpl.getValue, Bool.false_eq_true, if_false,
        if_neg (show ¬ key = "coordinator" from hreserved), ClientRequest.key, hentry]
      cases map key <;> exact ⟨rfl, rfl, hvalue⟩
    | put key value => cases hrequest
    | delete key => cases hrequest
  | some update =>
    have hkey := ClientRequest.key_of_update hrequest
    obtain ⟨_, hrun⟩ := (@update_cases servers handler _ (.within reach randomFail) _
      hrequest).resolve_left fun h => hreserved (hkey ▸ h.1)
    have hok : (runPaxos (.within reach randomFail) servers handler update).1.ok = true :=
      Reference.update_ok hsound hhandler hreliable
    have hupdated := Reference.updated_runPaxos hsound hhandler
      (ClientRequest.isUpdate_of_update hrequest) (fun a ha => hfresh a ha update.key) randomFail
    rw [hok] at hupdated
    rw [handleRequest_of_update hrequest, hrun, Solo.runPaxos_eq_of_ok hok, Prod.mk.injEq]
      at hhandled
    rw [Solo.runPaxos_eq_of_ok hok] at hupdated
    obtain ⟨rfl, rfl⟩ := hhandled
    refine ⟨?_, ?_, fun key hkey' => hupdated.entry hhandler (hvalue key hkey')⟩
    · cases request <;> first | rfl | cases hrequest
    · cases request <;> first | rfl | cases hrequest

end Handled

/-! ## Runs -/

namespace Deployment

/-- The servers run with a fail rate of 0 while they handle the request. -/
def Action.Reliable : Action → Prop
  | .start _ _ _ => True
  | .request _ _ _ randomFail => ∀ msg a, randomFail msg a = false
  | .crash _ => True

/-- The requests that were answered, oldest first. -/
def requests (d : Deployment) : List ClientRequest :=
  (d.answers.map Answered.request).reverse

/-- What their clients printed. -/
def transcript (d : Deployment) : List String :=
  (d.answers.map fun x => Client.line x.request x.answer).reverse

/-- `C` leads, and so far all answers were those of the map that never fails. -/
structure Exact (C : Addr) (d : Deployment) (map : AtomicMap) : Prop where
  led : LedBy C d map
  after : ∀ key, key ≠ "coordinator" → d.requests.foldl AtomicMap.after .initial key = map key
  printed : d.transcript = AtomicMap.initial.transcript d.requests

variable {stubs : PaxosStubs} {d d' : Deployment} {C server : Addr} {map : AtomicMap}

/-- Without a new answer nothing is printed. -/
theorem Exact.congr (h : Exact C d map) (hled : LedBy C d' map)
    (hanswers : d'.answers = d.answers) : Exact C d' map := by
  obtain ⟨_, hafter, hprinted⟩ := h
  refine ⟨hled, ?_, ?_⟩
  · rwa [requests, hanswers]
  · rwa [transcript, requests, hanswers]

theorem Exact.answered (hsound : Sound stubs d) (h : Exact C d map) {request : ClientRequest}
    {reach : List Addr} {randomFail : Message → Addr → Bool} (hreach : C ∈ reach)
    (hreliable : ∀ msg a, randomFail msg a = false) (hup : server ∈ d.running)
    {answer : Answer} {servers : Servers}
    (hflow : d.servers.requestFlow (fun a => a ∈ d.reached reach) randomFail server request =
      some (answer, servers)) {map' : AtomicMap}
    (hled : LedBy C
      { d with
        servers := servers
        answers := d.answered request (d.reached reach) answer :: d.answers } map') :
    Exact C
      { d with
        servers := servers
        answers := d.answered request (d.reached reach) answer :: d.answers } map' := by
  obtain ⟨hstatus, hresponse, hentry⟩ := exact_handleRequest hsound.servers
    (h.led.peer hsound hreach) h.led.value h.led.fresh (fun msg a _ => hreliable msg a)
    (h.led.handles hsound hreach hup hflow)
  have hanswer := AtomicMap.answer_congr request h.after
  refine ⟨hled, fun key hkey => ?_, ?_⟩
  · rw [← hled.value key hkey, hentry key hkey]
    simp only [requests, List.map_cons, List.reverse_cons, List.foldl_append, List.foldl_cons,
      List.foldl_nil]
    exact AtomicMap.after_congr request h.after hkey
  · have hline : Client.line request answer = Client.line request
        ((d.requests.foldl AtomicMap.after .initial).answer request) := by
      rw [hanswer]
      exact Client.line_congr request hstatus hresponse
    have hprinted := h.printed
    simp only [transcript, requests, List.map_cons, List.reverse_cons] at hprinted hline ⊢
    rw [AtomicMap.transcript_append]
    exact congrArg₂ (· ++ [·]) hprinted hline

/-- While `C` stays up and nothing fails at random, it answers as the map that
never fails. -/
theorem exact_of_reachable (hempty : "" ∉ stubs.addrs)
    (h : (deployment stubs).Reachable (fun d act => d.SteadyAt C act ∧ act.Reliable) d) :
    d.Idle ∨ ∃ map, Exact C d map := by
  refine h.invariant (I := fun d => d.Idle ∨ ∃ map, Exact C d map) ?_ ?_
  · rintro d rfl
    exact Or.inl ⟨rfl, rfl, rfl⟩
  · intro d act d' hreach hcond hstep hd
    obtain ⟨hsteady, hreliable⟩ := hcond
    have hsound := sound_of_reachable hreach
    rcases hd with hidle | ⟨map, hd⟩
    · refine (idle_step hempty hsound hsteady hidle (step_cases hstep)).imp_right ?_
      rintro ⟨hled, hnone⟩
      refine ⟨_, hled, fun key _ => ?_, ?_⟩
      · rw [requests, hnone]
        rfl
      · rw [transcript, requests, hnone]
        rfl
    · rcases hd.led.step hempty hsound hsteady (step_cases hstep) with
        ⟨hled, hanswers⟩ | ⟨⟨server, request, reach, randomFail, rfl⟩, map', hled⟩
      · exact Or.inr ⟨map, hd.congr hled hanswers⟩
      · have hcases : StepCases stubs d (.request server request reach randomFail) d' :=
          step_cases hstep
        cases hcases with
        | answered hup hflow =>
          exact Or.inr ⟨map', hd.answered hsound hsteady hreliable hup hflow hled⟩

/-- Until the first server starts, nothing is asked and nothing is printed. -/
theorem transcript_of_idle_or_exact (h : d.Idle ∨ ∃ map, Exact C d map) :
    d.transcript = AtomicMap.initial.transcript d.requests := by
  rcases h with hidle | ⟨map, hexact⟩
  · rw [transcript, requests, hidle.answers]
    rfl
  · exact hexact.printed

/-- The clients print what they would print with one map that never fails. -/
theorem transcript_of_reachable (hempty : "" ∉ stubs.addrs)
    (h : (deployment stubs).Reachable (fun d act => d.SteadyAt C act ∧ act.Reliable) d) :
    d.transcript = AtomicMap.initial.transcript d.requests :=
  transcript_of_idle_or_exact (exact_of_reachable hempty h)

/-- `b` misses an update, is restarted and is asked for it. -/
def askRestarted : List Action :=
  startServers ++
    [.request "c" (.put "k" "x") ["a", "c"] fun _ _ => false, .crash "b",
      .start "b" ["a"] fun _ _ => false, .request "b" (.get "k") ["a", "b"] fun _ _ => false,
      .request "c" (.delete "coordinator") ["a"] fun _ _ => false, .crash "c",
      .request "b" (.delete "k") ["a", "b"] fun _ _ => false,
      .request "b" (.get "k") ["a"] fun _ _ => false]

set_option maxRecDepth 10000 in
/-- It has it, and deletes it. -/
theorem transcript_askRestarted :
    ∃ d : Deployment, d.transcript =
        ["Pair (k, x) is now added to the store.", "k : x", "Error Code 10. Illegal keyword",
          "Key (k) is deleted.", "Error Code 5. Key not found."] ∧
      d.transcript = AtomicMap.initial.transcript d.requests := by
  have hrun : ∃ d ∈ (deployment (.ofReplicas ["a", "b", "c"])).execWhere (SteadyAt "a")
      (initial (.ofReplicas ["a", "b", "c"])) askRestarted,
      d.transcript =
        ["Pair (k, x) is now added to the store.", "k : x", "Error Code 10. Illegal keyword",
          "Key (k) is deleted.", "Error Code 5. Key not found."] := by
    decide +kernel
  obtain ⟨d, hexec, hprinted⟩ := hrun
  have hreliable : ∀ act ∈ askRestarted, act.Reliable := by
    simp [askRestarted, startServers, Action.Reliable]
  exact ⟨d, hprinted, transcript_of_reachable (by decide)
    (ActionSystem.Reachable.of_execWhere_forall (.start rfl) hreliable hexec)⟩

end Deployment

end PaxosKVStore
