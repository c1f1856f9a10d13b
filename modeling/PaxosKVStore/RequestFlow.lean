import PaxosKVStore.StartUp

/-!
# The request flow

The KeyValueStore service of a server forwards the request of a client to the
coordinator that the server knows.  If the coordinator cannot be reached the
server nominates itself, and forwards the request once more to whoever is the
coordinator then.

Requests are handled one at a time here.  `reach` is the set of servers that
can be reached while one is handled, and a call to another one fails with
UNAVAILABLE.  `requestFlow_cases` says what a request does: it runs at most
one election, and then at most one server handles it.
-/

namespace PaxosKVStore

/-- A request to the KeyValueStore service. -/
inductive ClientRequest where
  | get (key : String)
  | put (key value : String)
  | delete (key : String)
  deriving DecidableEq, Repr

namespace ClientRequest

def key : ClientRequest → String
  | .get key => key
  | .put key _ => key
  | .delete key => key

/-- What a PUT or a DELETE asks for. -/
def update : ClientRequest → Option Request
  | .get _ => none
  | .put key value => some (.put key value)
  | .delete key => some (.delete key)

section Update

variable {request : ClientRequest} {update : Request}

theorem key_of_update (h : request.update = some update) : update.key = request.key := by
  cases request <;> cases h <;> rfl

theorem isUpdate_of_update (h : request.update = some update) : update.IsUpdate := by
  cases request <;> cases h <;> trivial

end Update

end ClientRequest

/-- The answer to a client.  Who handled the request is not part of it, and
stands here for the properties only. -/
structure Answer where
  status : Status
  response : GetResponse := {}
  handledBy : Option Addr := none
  deriving DecidableEq, Repr

namespace Servers

/-- `PutPair` and `DeletePair` of the MultiPaxos service. -/
def update (servers : Servers) (o : Outcomes) (server : Addr) (request : Request) :
    Status × Servers :=
  match request.refusal {} with
  | some status => (status, servers)
  | none => runPaxos o servers server request

/-- The handler of the MultiPaxos service that a request is forwarded to. -/
def handleRequest (servers : Servers) (o : Outcomes) (server : Addr)
    (request : ClientRequest) : Answer × Servers :=
  match request with
  | .get key =>
      let (status, response) := (servers server).getValue {} { key := key }
      ({ status := status, response := response, handledBy := some server }, servers)
  | .put key value =>
      let (status, servers) := servers.update o server (.put key value)
      ({ status := status, handledBy := some server }, servers)
  | .delete key =>
      let (status, servers) := servers.update o server (.delete key)
      ({ status := status, handledBy := some server }, servers)

/-- `ForwardToCoordinator`. -/
def forwardToCoordinator (servers : Servers) (reach : Addr → Bool)
    (randomFail : Message → Addr → Bool) (coordinator : Addr) (request : ClientRequest) :
    Answer × Servers :=
  if reach coordinator then
    servers.handleRequest (.within reach randomFail) coordinator request
  else ({ status := unavailable }, servers)

/-- `RequestFlow` on `server`. -/
def requestFlow (servers : Servers) (reach : Addr → Bool)
    (randomFail : Message → Addr → Bool) (server : Addr) (request : ClientRequest) :
    Option (Answer × Servers) :=
  match (servers server).paxosStubsMap.getCoordinatorStub with
  | none =>
      some ({ status := { code := .aborted, message := "Coordinator is not set." } }, servers)
  | some coordinator =>
      -- Forward request to Coordinator.
      let (forwarded, servers) :=
        servers.forwardToCoordinator reach randomFail coordinator request
      -- Elect a new Coordinator if the current one is unavailable.
      if forwarded.status.code = .unavailable ∨ forwarded.status.code = .deadlineExceeded then
        match servers.electNewCoordinator (.within reach randomFail) server with
        | none => none
        | some (electionStatus, servers) =>
            let failed : Answer :=
              { status :=
                  { code := electionStatus.code
                    message := "Can't reach Coordinator. Failed to elect a new Coordinator. " ++
                      electionStatus.message } }
            if electionStatus.ok then
              match (servers server).paxosStubsMap.getCoordinatorStub with
              | none => some (failed, servers)
              | some coordinator =>
                  -- Forward request to new Coordinator.
                  let (forwarded, servers) :=
                    servers.forwardToCoordinator reach randomFail coordinator request
                  if forwarded.status.ok then some (forwarded, servers)
                  else
                    some ({ forwarded with
                      status :=
                        { code := forwarded.status.code
                          message := "Failed to communicate with Coordinator. " ++
                            forwarded.status.message } }, servers)
            else some (failed, servers)
      else some (forwarded, servers)

end Servers

/-! ## What a request does -/

section Cases

variable {servers servers' : Servers} {reach : Addr → Bool}
  {randomFail : Message → Addr → Bool} {server coordinator : Addr} {request : ClientRequest}
  {answer : Answer}

/-- A run that is not interrupted returns OK or ABORTED. -/
theorem runPaxos_code (o : Outcomes) (servers : Servers) (server : Addr) (request : Request) :
    (runPaxos o servers server request).1.code = .ok ∨
      (runPaxos o servers server request).1.code = .aborted := by
  have hcases := Solo.runPaxos_cases o servers server request
  generalize runPaxos o servers server request = result at hcases
  cases hcases with
  | noneLive message hlive => exact Or.inr rfl
  | failedQuorum message hlive hcount => exact Or.inr rfl
  | failedConsensus message hquorum hcount => exact Or.inr rfl
  | done hquorum hconsensus => exact Or.inl rfl

/-- A handler refuses with ABORTED. -/
theorem code_of_refusal {request : Request} {status : Status}
    (h : request.refusal {} = some status) : status.code = .aborted := by
  unfold Request.refusal at h
  rw [if_neg Bool.false_ne_true] at h
  cases request with
  | put key value =>
    simp only at h
    split at h <;> cases h
    rfl
  | delete key =>
    simp only at h
    split at h <;> cases h
    rfl
  | electCoordinator key coordinator => cases h

/-- A handler does not refuse a PUT or DELETE on a key of the clients. -/
theorem refusal_of_isUpdate {request : Request} (h : request.IsUpdate)
    (hkey : request.key ≠ "coordinator") : request.refusal {} = none := by
  cases request with
  | put key value => exact if_neg hkey
  | delete key => exact if_neg hkey
  | electCoordinator key coordinator => exact h.elim

theorem update_code (servers : Servers) (o : Outcomes) (server : Addr) (request : Request) :
    (servers.update o server request).1.code = .ok ∨
      (servers.update o server request).1.code = .aborted := by
  unfold Servers.update
  split
  · rename_i status hrefusal
    exact Or.inr (code_of_refusal hrefusal)
  · exact runPaxos_code _ _ _ _

theorem handleRequest_of_update {o : Outcomes} {update : Request}
    (h : request.update = some update) :
    servers.handleRequest o server request =
      ({ status := (servers.update o server update).1, handledBy := some server },
        (servers.update o server update).2) := by
  cases request <;> cases h <;> rfl

theorem handleRequest_get {o : Outcomes} (h : request.update = none) :
    servers.handleRequest o server request =
      ({ status := ((servers server).getValue {} { key := request.key }).1
         response := ((servers server).getValue {} { key := request.key }).2
         handledBy := some server }, servers) := by
  cases request with
  | get key => rfl
  | put key value => cases h
  | delete key => cases h

theorem handledBy_handleRequest {o : Outcomes}
    (h : servers.handleRequest o server request = (answer, servers')) :
    answer.handledBy = some server := by
  have hanswer := congrArg (fun result => result.1.handledBy) h
  cases request <;> exact hanswer.symm

/-- A handler does not answer as a server that cannot be reached. -/
theorem handleRequest_code (servers : Servers) (o : Outcomes) (server : Addr)
    (request : ClientRequest) :
    ¬ ((servers.handleRequest o server request).1.status.code = .unavailable ∨
      (servers.handleRequest o server request).1.status.code = .deadlineExceeded) := by
  cases hupdate : request.update with
  | none =>
    rw [handleRequest_get hupdate]
    simp only [MultiPaxosServiceImpl.getValue, Bool.false_eq_true, if_false]
    split
    · simp
    · split <;> simp [Status.OK]
  | some update =>
    rw [handleRequest_of_update hupdate]
    rcases update_code servers o server update with h | h <;> simp [h]

/-- The request was handled by a server that can be reached, and its answer
went back with another text at most. -/
def HandledAt (servers servers' : Servers) (reach : Addr → Bool)
    (randomFail : Message → Addr → Bool) (request : ClientRequest) (answer : Answer)
    (handler : Addr) : Prop :=
  reach handler = true ∧ ∃ handled : Answer,
    servers.handleRequest (.within reach randomFail) handler request = (handled, servers') ∧
    answer.handledBy = some handler ∧ answer.response = handled.response ∧
    answer.status.code = handled.status.code

/-- A forwarded request is handled, or nothing happens. -/
theorem forwardToCoordinator_cases
    (h : servers.forwardToCoordinator reach randomFail coordinator request =
      (answer, servers')) :
    (HandledAt servers servers' reach randomFail request answer coordinator ∧
        ¬ (answer.status.code = .unavailable ∨ answer.status.code = .deadlineExceeded)) ∨
      (answer = { status := unavailable } ∧ servers' = servers) := by
  unfold Servers.forwardToCoordinator at h
  split at h
  · rename_i hreach
    have hcode : ¬ (answer.status.code = .unavailable ∨
        answer.status.code = .deadlineExceeded) := by
      have := handleRequest_code servers (.within reach randomFail) coordinator request
      rwa [h] at this
    refine Or.inl ⟨⟨hreach, answer, h, ?_, rfl, rfl⟩, hcode⟩
    cases request <;> exact (congrArg (fun result => result.1.handledBy) h).symm
  · cases h
    exact Or.inr ⟨rfl, rfl⟩

/-- A request runs at most one election, and is handled by at most one server
after it.  Only an election that leaves no coordinator behind could make the
service answer OK without that. -/
theorem requestFlow_cases
    (h : servers.requestFlow reach randomFail server request = some (answer, servers')) :
    ∃ chosen : Servers,
      (chosen = servers ∨ ∃ status,
        servers.electNewCoordinator (.within reach randomFail) server = some (status, chosen)) ∧
      ((answer.handledBy = none ∧ servers' = chosen ∧ (answer.status.ok = true →
          ∃ status : Status, status.ok = true ∧ servers.electNewCoordinator
            (.within reach randomFail) server = some (status, chosen) ∧
            (chosen server).paxosStubsMap.getCoordinatorStub = none)) ∨
        ∃ handler, HandledAt chosen servers' reach randomFail request answer handler) := by
  unfold Servers.requestFlow at h
  split at h
  · cases h
    exact ⟨servers, Or.inl rfl, Or.inl ⟨rfl, rfl, fun hok => by cases hok⟩⟩
  · rename_i coordinator hstub
    rcases hforward : servers.forwardToCoordinator reach randomFail coordinator request with
      ⟨forwarded, servers₁⟩
    simp only [hforward] at h
    rcases forwardToCoordinator_cases hforward with ⟨hhandled, hcode⟩ | ⟨rfl, rfl⟩
    · rw [if_neg hcode] at h
      cases h
      exact ⟨servers, Or.inl rfl, Or.inr ⟨coordinator, hhandled⟩⟩
    · rw [if_pos (by exact Or.inl rfl)] at h
      split at h
      · cases h
      · rename_i electionStatus chosen helection
        refine ⟨chosen, Or.inr ⟨electionStatus, helection⟩, ?_⟩
        split at h
        · rename_i hok
          split at h
          · rename_i hnone
            cases h
            exact Or.inl ⟨rfl, rfl, fun _ => ⟨electionStatus, hok, helection, hnone⟩⟩
          · rename_i coordinator' hstub'
            rcases hforward' : chosen.forwardToCoordinator reach randomFail coordinator'
              request with ⟨forwarded', servers₂⟩
            simp only [hforward'] at h
            rcases forwardToCoordinator_cases hforward' with ⟨hhandled, _⟩ | ⟨rfl, rfl⟩
            · obtain ⟨hreach, handled, heq, hby, hresponse, hstatus⟩ := hhandled
              split at h
              · cases h
                exact Or.inr ⟨coordinator', hreach, handled, heq, hby, hresponse, hstatus⟩
              · cases h
                exact Or.inr ⟨coordinator', hreach, handled, heq, hby, hresponse, hstatus⟩
            · split at h <;> cases h <;> exact Or.inl ⟨rfl, rfl, fun hok => by cases hok⟩
        · rename_i hfailed
          cases h
          exact Or.inl ⟨rfl, rfl, fun hok => absurd hok hfailed⟩

/-- A request that was answered OK was handled. -/
theorem handled_of_ok {stubs : PaxosStubs} (hsound : ∀ a, SoundServer stubs a (servers a))
    (hreach : reach server = true)
    (h : servers.requestFlow reach randomFail server request = some (answer, servers'))
    (hok : answer.status.ok = true) : answer.handledBy.isSome = true := by
  obtain ⟨chosen, _, ⟨_, _, hnone⟩ | ⟨handler, _, _, _, hby, _⟩⟩ := requestFlow_cases h
  · obtain ⟨status, helected, helection, hstub⟩ := hnone hok
    have hcoordinator := coordinator_of_electNewCoordinator hsound hreach helection helected
    rw [PaxosStubsMap.getCoordinatorStub,
      (soundServer_electNewCoordinator hsound helection server).configured,
      if_pos hcoordinator] at hstub
    cases hstub
  · rw [hby]
    rfl

/-- A PUT or DELETE is a run of Paxos, unless it is on the reserved key. -/
theorem update_cases {o : Outcomes} {update : Request} (h : request.update = some update) :
    (update.key = "coordinator" ∧ (servers.update o server update).1.ok = false ∧
        (servers.update o server update).2 = servers) ∨
      (update.key ≠ "coordinator" ∧
        servers.update o server update = runPaxos o servers server update) := by
  unfold Servers.update
  split
  · rename_i status hrefusal
    refine Or.inl ⟨?_, by simp [Status.ok, code_of_refusal hrefusal], rfl⟩
    by_contra hkey
    rw [refusal_of_isUpdate (ClientRequest.isUpdate_of_update h) hkey] at hrefusal
    cases hrefusal
  · rename_i hrefusal
    refine Or.inr ⟨fun hkey => ?_, rfl⟩
    obtain ⟨c, rfl⟩ := Request.election_of_refusal hrefusal hkey
    cases request <;> cases h

/-- A server that is on its own list finds a stub for each call. -/
theorem requestFlow_isSome {stubs : PaxosStubs} (hsound : ∀ a, SoundServer stubs a (servers a))
    (hlisted : server ∈ stubs.addrs) (hne : server ≠ "") :
    (servers.requestFlow reach randomFail server request).isSome = true := by
  unfold Servers.requestFlow
  split
  · rfl
  · rename_i coordinator hstub
    rcases hforward : servers.forwardToCoordinator reach randomFail coordinator request with
      ⟨forwarded, servers₁⟩
    simp only
    rcases forwardToCoordinator_cases hforward with ⟨_, hcode⟩ | ⟨_, hsame⟩
    · rw [if_neg hcode]
      rfl
    · subst hsame
      obtain ⟨⟨electionStatus, chosen⟩, helection⟩ := Option.isSome_iff_exists.mp
        (electNewCoordinator_isSome hsound hlisted hne (.within reach randomFail))
      simp only [helection]
      split
      · split
        · split
          · rfl
          · split <;> rfl
        · rfl
      · rfl

/-- What elections and updates keep, a request keeps. -/
theorem requestFlow_keeps {stubs : PaxosStubs} {P : Servers → Prop}
    (hsound : ∀ a, SoundServer stubs a (servers a))
    (helection : server ∈ stubs.addrs → P (runPaxos (.within reach randomFail) servers server
      (.electCoordinator "coordinator" server)).2)
    (hupdate : ∀ chosen handler update, reach handler = true → request.update = some update →
      update.key ≠ "coordinator" → P chosen →
      P (runPaxos (.within reach randomFail) chosen handler update).2)
    (h : servers.requestFlow reach randomFail server request = some (answer, servers'))
    (hP : P servers) : P servers' := by
  obtain ⟨chosen, helected, hend⟩ := requestFlow_cases h
  have hchosen : P chosen := by
    rcases helected with rfl | ⟨status, helected⟩
    · exact hP
    · obtain ⟨hlisted, rfl | rfl, _⟩ := electNewCoordinator_cases hsound helected
      · exact hP
      · exact helection hlisted
  rcases hend with ⟨_, rfl, _⟩ | ⟨handler, hreach, handled, hhandled, _⟩
  · exact hchosen
  · cases hrequest : request.update with
    | none =>
      rw [handleRequest_get hrequest] at hhandled
      cases hhandled
      exact hchosen
    | some update =>
      rw [handleRequest_of_update hrequest] at hhandled
      obtain rfl := (Prod.mk.inj hhandled).2
      rcases @update_cases chosen handler _ (.within reach randomFail) _ hrequest with
        ⟨_, _, hsame⟩ | ⟨hkey, hrun⟩
      · rw [hsame]
        exact hchosen
      · rw [hrun]
        exact hupdate chosen handler update hreach hrequest hkey hchosen

end Cases

end PaxosKVStore
