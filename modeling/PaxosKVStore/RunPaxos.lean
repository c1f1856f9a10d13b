import PaxosKVStore.Lib.Majority
import PaxosKVStore.MultiPaxosService

/-!
# One invocation of `RunPaxos`

`Invocation` holds the local variables of `RunPaxos` and the place where the
invocation stands.  The function is four loops over replicas, and between two
calls it only works on its own variables, so an invocation is a machine with
two moves:

* `nextCall` is the call that the current loop makes next, and `receive` is
  the loop body after the answer arrived or the call failed;
* `advance` is the code after a loop that ran through: the quorum test and
  the start of the next loop, or the return.

`promisedBy` and `acceptedBy` are history variables.  They list the replicas
that were counted in `numOfPromised` and `numOfAccepted`.

`Wf` is what the two moves keep: the counters are lengths of these lists, and
a phase is reached with the majority that its test asked for.  `Evolves` says
what stays fixed from a phase on, most of all the proposal once the promises
are in and the acceptance once the consensus is reached.
-/

namespace PaxosKVStore

open Majority

/-- The loop that an invocation is in, with the replicas it has still to
visit, or the status it returned. -/
inductive Phase where
  | ping (todo : List Addr)
  | prepare (todo : List Addr)
  | propose (todo : List Addr)
  | inform (todo : List Addr)
  | returned (status : Status)
  deriving DecidableEq, Repr

/-- The same loop after the replica at its head. -/
def Phase.tail : Phase → Phase
  | .ping todo => .ping todo.tail
  | .prepare todo => .prepare todo.tail
  | .propose todo => .propose todo.tail
  | .inform todo => .inform todo.tail
  | .returned status => .returned status

structure Invocation where
  server : Addr
  request : Request
  round : Int
  proposeId : Int := 1
  paxosStubs : List Addr
  phase : Phase
  livePaxosStubs : List Addr := []
  numOfPromised : Nat := 0
  acceptedId : Int := 0
  acceptedType : OperationType := .notSet
  acceptedValue : String := ""
  numOfAccepted : Nat := 0
  acceptance : AcceptResponse := {}
  promisedBy : List Addr := []
  acceptedBy : List Addr := []
  deriving DecidableEq, Repr

namespace Invocation

/-- The first lines of `RunPaxos` on `server`: the round is one above the
latest round that the server itself has logged. -/
def enter (server : Addr) (service : MultiPaxosServiceImpl) (request : Request) :
    Invocation :=
  { server := server
    request := request
    round := (service.kvDb.getLatestRound request.key).1 + 1
    paxosStubs := service.paxosStubsMap.getPaxosStubs
    phase := .ping service.paxosStubsMap.getPaxosStubs }

def key (inv : Invocation) : String := inv.request.key

def numOfAcceptors (inv : Invocation) : Nat := inv.livePaxosStubs.length

/-- The operation of the promise with the highest accepted id. -/
def acceptedOperation (inv : Invocation) : Operation :=
  { type := inv.acceptedType, value := inv.acceptedValue }

/-- The operation that goes into the `ProposeRequest`. -/
def proposal (inv : Invocation) : Operation :=
  if 0 < inv.acceptedId then inv.acceptedOperation else inv.request.setProposeValue

/-! ## The requests it sends -/

def prepareReq (inv : Invocation) : PrepareRequest :=
  { key := inv.key, round := inv.round, proposeId := inv.proposeId }

def proposeReq (inv : Invocation) : ProposeRequest :=
  { key := inv.key
    round := inv.round
    proposeId := inv.proposeId
    type := inv.proposal.type
    value := inv.proposal.value }

def informReq (inv : Invocation) : InformRequest :=
  { key := inv.key, acceptance := inv.acceptance }

/-- The call that the current loop makes next. -/
def nextCall (inv : Invocation) : Option (Addr × Message) :=
  match inv.phase with
  | .ping (addr :: _) => some (addr, .ping)
  | .prepare (addr :: _) => some (addr, .prepare inv.prepareReq)
  | .propose (addr :: _) => some (addr, .propose inv.proposeReq)
  | .inform (addr :: _) => some (addr, .inform inv.informReq)
  | _ => none

/-! ## The loop bodies -/

/-- A replica that answers the `Ping` is live. -/
def pinged (inv : Invocation) (addr : Addr) (status : Status) : Invocation :=
  -- The stubs are visited in address order, so the set grows at its end.
  if status.ok then { inv with livePaxosStubs := inv.livePaxosStubs ++ [addr] } else inv

/-- Count a promise and keep the acceptance with the highest id. -/
def promised (inv : Invocation) (addr : Addr) (status : Status) (response : PromiseResponse) :
    Invocation :=
  if status.ok then
    let inv :=
      { inv with
        numOfPromised := inv.numOfPromised + 1
        promisedBy := inv.promisedBy ++ [addr] }
    if inv.acceptedId < response.acceptedId then
      { inv with
        acceptedId := response.acceptedId
        acceptedType := response.type
        acceptedValue := response.value }
    else inv
  else inv

/-- Count an acceptance and keep the last one. -/
def accepted (inv : Invocation) (addr : Addr) (status : Status) (response : AcceptResponse) :
    Invocation :=
  if status.ok then
    { inv with
      numOfAccepted := inv.numOfAccepted + 1
      acceptance := response
      acceptedBy := inv.acceptedBy ++ [addr] }
  else inv

/-- The rest of the loop body after the call to `addr`.  A call that failed
has no answer and counts as rejected.  The answer to an `Inform` is ignored. -/
def receive (inv : Invocation) (addr : Addr) (answer : Option Reply) : Invocation :=
  let inv' :=
    match answer with
    | some (.ping status) => inv.pinged addr status
    | some (.prepare status response) => inv.promised addr status response
    | some (.propose status response) => inv.accepted addr status response
    | some (.inform _) => inv
    | none => inv
  { inv' with phase := inv.phase.tail }

/-! ## Between the loops -/

/-- `quorum_msg`. -/
def quorumMsg (inv : Invocation) : String :=
  "[key: " ++ inv.key ++ ", round: " ++ toString inv.round ++ ", propose_id: " ++
    toString inv.proposeId ++ "]: " ++ toString inv.numOfPromised ++ " Promise, " ++
    toString (inv.numOfAcceptors - inv.numOfPromised) ++ " Reject."

/-- `consensus_msg`. -/
def consensusMsg (inv : Invocation) : String :=
  "[key: " ++ inv.key ++ ", round: " ++ toString inv.round ++ ", propose_id: " ++
    toString inv.proposeId ++ ", value: " ++ inv.proposal.value ++ "]: " ++
    toString inv.numOfAccepted ++ " Accept, " ++
    toString (inv.numOfAcceptors - inv.numOfAccepted) ++ " Reject."

/-- The status without a live replica. -/
def noneLive : Status :=
  { code := .aborted, message := "Aborted. Can't connect to any PaxosStub." }

/-- The status without a promise quorum. -/
def failedQuorum (inv : Invocation) : Status :=
  { code := .aborted, message := "[Failed QUORUM] on " ++ inv.quorumMsg }

/-- The status without a consensus. -/
def failedConsensus (inv : Invocation) : Status :=
  { code := .aborted, message := "[Failed CONSENSUS] on " ++ inv.consensusMsg }

/-- Return a status. -/
def finish (inv : Invocation) (status : Status) : Invocation :=
  { inv with phase := .returned status }

/-- The code after the end of a loop. -/
def advance (inv : Invocation) : Option Invocation :=
  match inv.phase with
  | .ping [] =>
      if inv.livePaxosStubs = [] then some (inv.finish noneLive)
      else some { inv with phase := .prepare inv.livePaxosStubs }
  | .prepare [] =>
      if inv.numOfPromised ≤ inv.numOfAcceptors / 2 then some (inv.finish inv.failedQuorum)
      else some { inv with phase := .propose inv.livePaxosStubs }
  | .propose [] =>
      if inv.numOfAccepted ≤ inv.numOfAcceptors / 2 then some (inv.finish inv.failedConsensus)
      else some { inv with phase := .inform inv.livePaxosStubs }
  | .inform [] => some (inv.finish Status.OK)
  | _ => none

/-! ## How far it got -/

/-- The invocation reached its promise quorum, so that its proposal is fixed. -/
def Proposed (inv : Invocation) : Prop :=
  match inv.phase with
  | .ping _ => False
  | .prepare _ => False
  | .propose _ => True
  | .inform _ => True
  | .returned _ => inv.numOfAcceptors / 2 < inv.numOfPromised

/-- The invocation reached its `Propose` majority, so that it informs. -/
def Committed (inv : Invocation) : Prop :=
  match inv.phase with
  | .inform _ => True
  | .returned status => status.ok = true
  | _ => False

/-- The invocation has returned. -/
def Returned (inv : Invocation) (ok : Bool) : Prop :=
  ∃ status, inv.phase = .returned status ∧ status.ok = ok

/-- The live replicas that it has still to inform. -/
def uninformed (inv : Invocation) : List Addr :=
  match inv.phase with
  | .inform todo => todo
  | .returned _ => []
  | _ => inv.livePaxosStubs

/-- The invocation is still running. -/
def Active (inv : Invocation) : Prop :=
  match inv.phase with
  | .returned _ => False
  | _ => True

instance (inv : Invocation) : Decidable inv.Proposed :=
  match h : inv.phase with
  | .ping _ => isFalse (by simp [Proposed, h])
  | .prepare _ => isFalse (by simp [Proposed, h])
  | .propose _ => isTrue (by simp [Proposed, h])
  | .inform _ => isTrue (by simp [Proposed, h])
  | .returned _ =>
      decidable_of_iff (inv.numOfAcceptors / 2 < inv.numOfPromised) (by simp [Proposed, h])

instance (inv : Invocation) : Decidable inv.Committed :=
  match h : inv.phase with
  | .ping _ => isFalse (by simp [Committed, h])
  | .prepare _ => isFalse (by simp [Committed, h])
  | .propose _ => isFalse (by simp [Committed, h])
  | .inform _ => isTrue (by simp [Committed, h])
  | .returned status => decidable_of_iff (status.ok = true) (by simp [Committed, h])

instance (inv : Invocation) (ok : Bool) : Decidable (inv.Returned ok) :=
  match h : inv.phase with
  | .ping _ => isFalse (by simp [Returned, h])
  | .prepare _ => isFalse (by simp [Returned, h])
  | .propose _ => isFalse (by simp [Returned, h])
  | .inform _ => isFalse (by simp [Returned, h])
  | .returned status => decidable_of_iff (status.ok = ok) (by simp [Returned, h])

instance (inv : Invocation) : Decidable inv.Active :=
  match h : inv.phase with
  | .ping _ => isTrue (by simp [Active, h])
  | .prepare _ => isTrue (by simp [Active, h])
  | .propose _ => isTrue (by simp [Active, h])
  | .inform _ => isTrue (by simp [Active, h])
  | .returned _ => isFalse (by simp [Active, h])

/-! ## The two moves, case by case -/

/-- The call of each loop. -/
inductive Calls (inv : Invocation) : Addr → Message → Prop where
  | ping {addr : Addr} {todo : List Addr} (hphase : inv.phase = .ping (addr :: todo)) :
      Calls inv addr .ping
  | prepare {addr : Addr} {todo : List Addr} (hphase : inv.phase = .prepare (addr :: todo)) :
      Calls inv addr (.prepare inv.prepareReq)
  | propose {addr : Addr} {todo : List Addr} (hphase : inv.phase = .propose (addr :: todo)) :
      Calls inv addr (.propose inv.proposeReq)
  | inform {addr : Addr} {todo : List Addr} (hphase : inv.phase = .inform (addr :: todo)) :
      Calls inv addr (.inform inv.informReq)

theorem calls_of_nextCall {inv : Invocation} {addr : Addr} {msg : Message}
    (h : inv.nextCall = some (addr, msg)) : inv.Calls addr msg := by
  unfold nextCall at h
  split at h <;> cases h
  · exact .ping ‹_›
  · exact .prepare ‹_›
  · exact .propose ‹_›
  · exact .inform ‹_›

theorem nextCall_of_calls {inv : Invocation} {addr : Addr} {msg : Message}
    (h : inv.Calls addr msg) : inv.nextCall = some (addr, msg) := by
  cases h <;> rename_i hphase <;> simp [nextCall, hphase]

/-- The code after each loop, with the outcome of its test. -/
inductive Advances (inv : Invocation) : Invocation → Prop where
  | noneLive (message : String) (hphase : inv.phase = .ping []) (hlive : inv.livePaxosStubs = []) :
      Advances inv (inv.finish { code := .aborted, message := message })
  | startPrepare (hphase : inv.phase = .ping []) (hlive : inv.livePaxosStubs ≠ []) :
      Advances inv { inv with phase := .prepare inv.livePaxosStubs }
  | failedQuorum (message : String) (hphase : inv.phase = .prepare [])
      (hcount : inv.numOfPromised ≤ inv.numOfAcceptors / 2) :
      Advances inv (inv.finish { code := .aborted, message := message })
  | startPropose (hphase : inv.phase = .prepare [])
      (hcount : inv.numOfAcceptors / 2 < inv.numOfPromised) :
      Advances inv { inv with phase := .propose inv.livePaxosStubs }
  | failedConsensus (message : String) (hphase : inv.phase = .propose [])
      (hcount : inv.numOfAccepted ≤ inv.numOfAcceptors / 2) :
      Advances inv (inv.finish { code := .aborted, message := message })
  | startInform (hphase : inv.phase = .propose [])
      (hcount : inv.numOfAcceptors / 2 < inv.numOfAccepted) :
      Advances inv { inv with phase := .inform inv.livePaxosStubs }
  | done (hphase : inv.phase = .inform []) : Advances inv (inv.finish Status.OK)

theorem advances_of_advance {inv inv' : Invocation} (h : inv.advance = some inv') :
    inv.Advances inv' := by
  unfold advance at h
  split at h
  · split_ifs at h with hlive <;> cases h
    · exact .noneLive _ ‹_› hlive
    · exact .startPrepare ‹_› hlive
  · split_ifs at h with hcount <;> cases h
    · exact .failedQuorum _ ‹_› hcount
    · exact .startPropose ‹_› (not_le.mp hcount)
  · split_ifs at h with hcount <;> cases h
    · exact .failedConsensus _ ‹_› hcount
    · exact .startInform ‹_› (not_le.mp hcount)
  · cases h
    exact .done ‹_›
  · cases h

/-- The answers that a call can get: one that a server gives to this call, or
none. -/
def Answers (msg : Message) (answer : Option Reply) : Prop :=
  ∀ reply, answer = some reply → ∃ (s : MultiPaxosServiceImpl) (context : ServerContext)
    (randomFail : Bool), reply = (s.handle context randomFail msg).1

/-- The answers to a `Propose`: an acceptance repeats the proposal. -/
theorem answers_propose {request : ProposeRequest} {answer : Option Reply}
    (h : Answers (.propose request) answer) :
    answer = none ∨ ∃ status response, answer = some (.propose status response) ∧
      (status.ok = true → response =
        { round := request.round
          proposeId := request.proposeId
          type := request.type
          value := request.value }) := by
  cases answer with
  | none => exact Or.inl rfl
  | some reply =>
    obtain ⟨s, ⟨isCancelled⟩, randomFail, rfl⟩ := h reply rfl
    refine Or.inr ⟨_, _, rfl, fun hok => ?_⟩
    cases isCancelled with
    | false => exact s.propose_response randomFail request hok
    | true => cases hok

/-- The acceptance of a proposal: the proposal itself, repeated. -/
def acceptanceOf (inv : Invocation) : AcceptResponse :=
  { round := inv.round
    proposeId := inv.proposeId
    type := inv.proposal.type
    value := inv.proposal.value }

/-- The loop bodies, with what each answer counts for. -/
inductive Receives (inv : Invocation) (addr : Addr) :
    Message → Option Reply → Invocation → Prop where
  | skip {msg : Message} {answer : Option Reply} (hcall : inv.Calls addr msg)
      (hskip : ∀ reply, answer = some reply →
        reply.status.ok = false ∨ ∃ status, reply = .inform status) :
      Receives inv addr msg answer { inv with phase := inv.phase.tail }
  | live {todo : List Addr} {status : Status} (hphase : inv.phase = .ping (addr :: todo))
      (hok : status.ok = true) :
      Receives inv addr .ping (some (.ping status))
        { inv with
          phase := .ping todo
          livePaxosStubs := inv.livePaxosStubs ++ [addr] }
  | promise {todo : List Addr} {status : Status} {response : PromiseResponse}
      (hphase : inv.phase = .prepare (addr :: todo)) (hok : status.ok = true)
      (hlow : ¬ inv.acceptedId < response.acceptedId) :
      Receives inv addr (.prepare inv.prepareReq) (some (.prepare status response))
        { inv with
          phase := .prepare todo
          numOfPromised := inv.numOfPromised + 1
          promisedBy := inv.promisedBy ++ [addr] }
  | promiseHigher {todo : List Addr} {status : Status} {response : PromiseResponse}
      (hphase : inv.phase = .prepare (addr :: todo)) (hok : status.ok = true)
      (hhigh : inv.acceptedId < response.acceptedId) :
      Receives inv addr (.prepare inv.prepareReq) (some (.prepare status response))
        { inv with
          phase := .prepare todo
          numOfPromised := inv.numOfPromised + 1
          promisedBy := inv.promisedBy ++ [addr]
          acceptedId := response.acceptedId
          acceptedType := response.type
          acceptedValue := response.value }
  | accept {todo : List Addr} {status : Status} (hphase : inv.phase = .propose (addr :: todo))
      (hok : status.ok = true) :
      Receives inv addr (.propose inv.proposeReq) (some (.propose status inv.acceptanceOf))
        { inv with
          phase := .propose todo
          numOfAccepted := inv.numOfAccepted + 1
          acceptance := inv.acceptanceOf
          acceptedBy := inv.acceptedBy ++ [addr] }

/-- An answer that is not counted only moves the loop on. -/
theorem receive_not_ok (inv : Invocation) (addr : Addr) {answer : Option Reply}
    (h : ∀ reply, answer = some reply → reply.status.ok = false) :
    inv.receive addr answer = { inv with phase := inv.phase.tail } := by
  cases answer with
  | none => rfl
  | some reply =>
    have hno := h reply rfl
    cases reply <;>
      simp_all [receive, Reply.status, pinged, promised, accepted]

theorem receives_of_calls {inv : Invocation} {addr : Addr} {msg : Message}
    {answer : Option Reply} (hcall : inv.Calls addr msg) (hanswer : Answers msg answer) :
    inv.Receives addr msg answer (inv.receive addr answer) := by
  by_cases hno : ∀ reply, answer = some reply → reply.status.ok = false
  · rw [receive_not_ok inv addr hno]
    exact .skip hcall fun reply hreply => Or.inl (hno reply hreply)
  · push Not at hno
    obtain ⟨reply, rfl, hok⟩ := hno
    obtain ⟨s, context, randomFail, hreply⟩ := hanswer reply rfl
    rw [ne_eq, Bool.not_eq_false] at hok
    cases hcall with
    | @ping todo hphase =>
      subst hreply
      have heq : inv.receive addr (some (.ping s.ping)) =
          { inv with
            phase := .ping todo
            livePaxosStubs := inv.livePaxosStubs ++ [addr] } := by
        simp only [receive, pinged, MultiPaxosServiceImpl.ping, Status.ok_OK, if_true, hphase,
          Phase.tail, List.tail_cons]
      simp only [MultiPaxosServiceImpl.handle]
      rw [heq]
      exact .live hphase rfl
    | @prepare todo hphase =>
      obtain ⟨status, response, heq⟩ : ∃ status response, reply = .prepare status response :=
        ⟨_, _, hreply⟩
      subst heq
      rw [Reply.status] at hok
      by_cases h : inv.acceptedId < response.acceptedId
      · have heq : inv.receive addr (some (.prepare status response)) =
            { inv with
              phase := .prepare todo
              numOfPromised := inv.numOfPromised + 1
              promisedBy := inv.promisedBy ++ [addr]
              acceptedId := response.acceptedId
              acceptedType := response.type
              acceptedValue := response.value } := by
          simp only [receive, promised, hok, h, if_true, hphase, Phase.tail, List.tail_cons]
        rw [heq]
        exact .promiseHigher hphase hok h
      · have heq : inv.receive addr (some (.prepare status response)) =
            { inv with
              phase := .prepare todo
              numOfPromised := inv.numOfPromised + 1
              promisedBy := inv.promisedBy ++ [addr] } := by
          simp only [receive, promised, hok, h, if_true, if_false, hphase, Phase.tail,
            List.tail_cons]
        rw [heq]
        exact .promise hphase hok h
    | @propose todo hphase =>
      obtain ⟨status, response, heq, hrepeat⟩ :=
        (answers_propose hanswer).resolve_left (by simp)
      cases heq
      rw [Reply.status] at hok
      have hresponse : response = inv.acceptanceOf := hrepeat hok
      subst hresponse
      have heq : inv.receive addr (some (.propose status inv.acceptanceOf)) =
          { inv with
            phase := .propose todo
            numOfAccepted := inv.numOfAccepted + 1
            acceptance := inv.acceptanceOf
            acceptedBy := inv.acceptedBy ++ [addr] } := by
        simp only [receive, accepted, hok, if_true, hphase, Phase.tail, List.tail_cons]
      rw [heq]
      exact .accept hphase hok
    | inform hphase =>
      obtain ⟨status, heq⟩ : ∃ status, reply = .inform status := ⟨_, hreply⟩
      subst heq
      exact .skip (.inform hphase) fun reply hreply => Or.inr ⟨status, by cases hreply; rfl⟩

/-! ## Well-formed invocations -/

/-- What the invocation has collected when it stands at its phase. -/
def Progress (inv : Invocation) : Prop :=
  match inv.phase with
  | .ping todo =>
      (∃ seen, inv.paxosStubs = seen ++ todo ∧ inv.livePaxosStubs.Sublist seen) ∧
        inv.promisedBy = [] ∧ inv.acceptedBy = []
  | .prepare todo =>
      inv.livePaxosStubs ≠ [] ∧
        (∃ seen, inv.livePaxosStubs = seen ++ todo ∧ inv.promisedBy.Sublist seen) ∧
        inv.acceptedBy = []
  | .propose todo =>
      IsMajority inv.promisedBy inv.livePaxosStubs ∧
        ∃ seen, inv.livePaxosStubs = seen ++ todo ∧ inv.acceptedBy.Sublist seen
  | .inform todo =>
      IsMajority inv.promisedBy inv.livePaxosStubs ∧
        IsMajority inv.acceptedBy inv.livePaxosStubs ∧
        ∃ seen, inv.livePaxosStubs = seen ++ todo
  | .returned status =>
      inv.promisedBy.Sublist inv.livePaxosStubs ∧
        inv.acceptedBy.Sublist inv.livePaxosStubs ∧
        (status.ok = true → IsMajority inv.promisedBy inv.livePaxosStubs ∧
          IsMajority inv.acceptedBy inv.livePaxosStubs) ∧
        (inv.acceptedBy ≠ [] → IsMajority inv.promisedBy inv.livePaxosStubs)

structure Wf (inv : Invocation) : Prop where
  proposeId : inv.proposeId = 1
  nodup : inv.paxosStubs.Nodup
  live : inv.livePaxosStubs.Sublist inv.paxosStubs
  countPromised : inv.numOfPromised = inv.promisedBy.length
  countAccepted : inv.numOfAccepted = inv.acceptedBy.length
  progress : inv.Progress
  echoed : inv.acceptedBy ≠ [] → inv.acceptance = inv.acceptanceOf

theorem wf_enter (server : Addr) (service : MultiPaxosServiceImpl) (request : Request) :
    (enter server service request).Wf where
  proposeId := rfl
  nodup := service.paxosStubsMap.stubs.nodup
  live := List.nil_sublist _
  countPromised := rfl
  countAccepted := rfl
  progress := ⟨⟨[], rfl, List.Sublist.refl _⟩, rfl, rfl⟩
  echoed := fun h => absurd rfl h

/-- A loop body keeps an invocation well formed. -/
theorem Wf.receives {inv inv' : Invocation} {addr : Addr} {msg : Message}
    {answer : Option Reply} (hwf : inv.Wf) (h : inv.Receives addr msg answer inv') :
    inv'.Wf := by
  have hprogress := hwf.progress
  cases h with
  | skip hcall hskip =>
    -- nothing is counted, and the head of the loop becomes visited
    refine ⟨hwf.proposeId, hwf.nodup, hwf.live, hwf.countPromised, hwf.countAccepted, ?_,
      hwf.echoed⟩
    cases hcall with
    | ping hphase =>
      simp only [Progress, hphase, Phase.tail, List.tail_cons] at hprogress ⊢
      obtain ⟨⟨seen, hseen, hlive⟩, hrest⟩ := hprogress
      exact ⟨⟨seen ++ [addr], by simp [hseen], hlive.trans (List.sublist_append_left _ _)⟩, hrest⟩
    | prepare hphase =>
      simp only [Progress, hphase, Phase.tail, List.tail_cons] at hprogress ⊢
      obtain ⟨hne, ⟨seen, hseen, hby⟩, hrest⟩ := hprogress
      exact ⟨hne, ⟨seen ++ [addr], by simp [← hseen], hby.trans (List.sublist_append_left _ _)⟩,
        hrest⟩
    | propose hphase =>
      simp only [Progress, hphase, Phase.tail, List.tail_cons] at hprogress ⊢
      obtain ⟨hmaj, seen, hseen, hby⟩ := hprogress
      exact ⟨hmaj, seen ++ [addr], by simp [← hseen], hby.trans (List.sublist_append_left _ _)⟩
    | inform hphase =>
      simp only [Progress, hphase, Phase.tail, List.tail_cons] at hprogress ⊢
      obtain ⟨hmaj, hmaj', seen, hseen⟩ := hprogress
      exact ⟨hmaj, hmaj', seen ++ [addr], by simp [← hseen]⟩
  | live hphase hok =>
    simp only [Progress, hphase] at hprogress
    obtain ⟨⟨seen, hseen, hlive⟩, hrest⟩ := hprogress
    have hsnoc : (inv.livePaxosStubs ++ [addr]).Sublist (seen ++ [addr]) :=
      hlive.append (List.Sublist.refl _)
    refine ⟨hwf.proposeId, hwf.nodup, hsnoc.trans ?_, hwf.countPromised, hwf.countAccepted, ?_,
      hwf.echoed⟩
    · rw [hseen]
      exact List.Sublist.append (List.Sublist.refl _) (by simp)
    · exact ⟨⟨seen ++ [addr], by simp [hseen], hsnoc⟩, hrest⟩
  | promise hphase hok hlow =>
    simp only [Progress, hphase] at hprogress
    obtain ⟨hne, ⟨seen, hseen, hby⟩, hrest⟩ := hprogress
    refine ⟨hwf.proposeId, hwf.nodup, hwf.live, by simp [hwf.countPromised],
      hwf.countAccepted, ?_, fun h => absurd hrest h⟩
    exact ⟨hne, ⟨seen ++ [addr], by simp [hseen], hby.append (List.Sublist.refl _)⟩, hrest⟩
  | promiseHigher hphase hok hhigh =>
    simp only [Progress, hphase] at hprogress
    obtain ⟨hne, ⟨seen, hseen, hby⟩, hrest⟩ := hprogress
    refine ⟨hwf.proposeId, hwf.nodup, hwf.live, by simp [hwf.countPromised],
      hwf.countAccepted, ?_, fun h => absurd hrest h⟩
    exact ⟨hne, ⟨seen ++ [addr], by simp [hseen], hby.append (List.Sublist.refl _)⟩, hrest⟩
  | accept hphase hok =>
    simp only [Progress, hphase] at hprogress
    obtain ⟨hmaj, seen, hseen, hby⟩ := hprogress
    refine ⟨hwf.proposeId, hwf.nodup, hwf.live, hwf.countPromised, by simp [hwf.countAccepted],
      ?_, fun _ => rfl⟩
    exact ⟨hmaj, seen ++ [addr], by simp [hseen], hby.append (List.Sublist.refl _)⟩

/-- The code between the loops keeps an invocation well formed. -/
theorem Wf.advances {inv inv' : Invocation} (hwf : inv.Wf) (h : inv.Advances inv') :
    inv'.Wf := by
  have hprogress := hwf.progress
  have hmove : ∀ phase, ({ inv with phase := phase } : Invocation).Progress →
      ({ inv with phase := phase } : Invocation).Wf := fun phase hp =>
    ⟨hwf.proposeId, hwf.nodup, hwf.live, hwf.countPromised, hwf.countAccepted, hp, hwf.echoed⟩
  cases h with
  | noneLive message hphase hlive =>
    simp only [Progress, hphase] at hprogress
    obtain ⟨_, hp, ha⟩ := hprogress
    exact hmove _ ⟨by simp [hp], by simp [ha], by simp, fun h => absurd ha h⟩
  | startPrepare hphase hlive =>
    simp only [Progress, hphase] at hprogress
    obtain ⟨_, hp, ha⟩ := hprogress
    exact hmove _ ⟨hlive, ⟨[], rfl, by simp [hp]⟩, ha⟩
  | failedQuorum message hphase hcount =>
    simp only [Progress, hphase] at hprogress
    obtain ⟨_, ⟨seen, hseen, hby⟩, ha⟩ := hprogress
    refine hmove _ ⟨?_, by simp [ha], by simp, fun h => absurd ha h⟩
    rw [hseen]
    exact hby.trans (List.sublist_append_left _ _)
  | startPropose hphase hcount =>
    simp only [Progress, hphase] at hprogress
    obtain ⟨_, ⟨seen, hseen, hby⟩, ha⟩ := hprogress
    have hmaj : IsMajority inv.promisedBy inv.livePaxosStubs :=
      ⟨hseen ▸ hby.trans (List.sublist_append_left _ _), by
        rw [← hwf.countPromised]
        exact hcount⟩
    exact hmove _ ⟨hmaj, [], rfl, by simp [ha]⟩
  | failedConsensus message hphase hcount =>
    simp only [Progress, hphase] at hprogress
    obtain ⟨hmaj, seen, hseen, hby⟩ := hprogress
    refine hmove _ ⟨hmaj.sublist, ?_, by simp, fun _ => hmaj⟩
    rw [hseen]
    exact hby.trans (List.sublist_append_left _ _)
  | startInform hphase hcount =>
    simp only [Progress, hphase] at hprogress
    obtain ⟨hmaj, seen, hseen, hby⟩ := hprogress
    have hmaj' : IsMajority inv.acceptedBy inv.livePaxosStubs :=
      ⟨hseen ▸ hby.trans (List.sublist_append_left _ _), by
        rw [← hwf.countAccepted]
        exact hcount⟩
    exact hmove _ ⟨hmaj, hmaj', [], rfl⟩
  | done hphase =>
    simp only [Progress, hphase] at hprogress
    obtain ⟨hmaj, hmaj', _⟩ := hprogress
    exact hmove _ ⟨hmaj.sublist, hmaj'.sublist, fun _ => ⟨hmaj, hmaj'⟩, fun _ => hmaj⟩

theorem committed_of_returned {inv : Invocation} (h : inv.Returned true) : inv.Committed := by
  obtain ⟨status, hphase, hok⟩ := h
  simpa [Committed, hphase] using hok

theorem not_failed_of_committed {inv : Invocation} (h : inv.Committed) :
    ¬ inv.Returned false := by
  rintro ⟨status, hphase, hok⟩
  simp [Committed, hphase, hok] at h

/-- An invocation that informs has a majority of acceptances, and informs of
its own proposal. -/
theorem Wf.committed {inv : Invocation} (hwf : inv.Wf) (h : inv.Committed) :
    IsMajority inv.promisedBy inv.livePaxosStubs ∧
      IsMajority inv.acceptedBy inv.livePaxosStubs ∧ inv.acceptance = inv.acceptanceOf := by
  have hprogress := hwf.progress
  unfold Committed at h
  unfold Progress at hprogress
  have hmaj : IsMajority inv.promisedBy inv.livePaxosStubs ∧
      IsMajority inv.acceptedBy inv.livePaxosStubs := by
    split at h
    · rename_i hphase
      rw [hphase] at hprogress
      exact ⟨hprogress.1, hprogress.2.1⟩
    · rename_i hphase
      rw [hphase] at hprogress
      exact hprogress.2.2.1 h
    · exact h.elim
  obtain ⟨a, ha⟩ := hmaj.2.exists_mem
  exact ⟨hmaj.1, hmaj.2, hwf.echoed (List.ne_nil_of_mem ha)⟩

/-- An invocation that informs is past its promise quorum. -/
theorem Wf.proposed_of_committed {inv : Invocation} (hwf : inv.Wf) (h : inv.Committed) :
    inv.Proposed := by
  have hmaj := (hwf.committed h).1
  unfold Committed at h
  unfold Proposed
  split at h
  · rename_i hphase
    rw [hphase]
    trivial
  · rename_i hphase
    rw [hphase, hwf.countPromised]
    exact hmaj.half_lt
  · exact h.elim

/-- An invocation past its promise quorum has a majority of promises. -/
theorem Wf.promises {inv : Invocation} (hwf : inv.Wf) (h : inv.Proposed) :
    IsMajority inv.promisedBy inv.livePaxosStubs := by
  have hprogress := hwf.progress
  unfold Proposed at h
  unfold Progress at hprogress
  split at h
  · exact h.elim
  · exact h.elim
  · rename_i hphase
    rw [hphase] at hprogress
    exact hprogress.1
  · rename_i hphase
    rw [hphase] at hprogress
    exact hprogress.1
  · rename_i hphase
    rw [hphase] at hprogress
    exact ⟨hprogress.1, by
      rw [← hwf.countPromised]
      exact h⟩

/-! ## What no move changes any more -/

/-- The later states of an invocation keep its parameters, its proposal once
it has a promise quorum, and its acceptance once it has a consensus. -/
structure Evolves (inv inv' : Invocation) : Prop where
  server : inv'.server = inv.server
  request : inv'.request = inv.request
  round : inv'.round = inv.round
  proposeId : inv'.proposeId = inv.proposeId
  proposed : inv.Proposed → inv'.Proposed ∧ inv'.acceptedId = inv.acceptedId ∧
    inv'.proposal = inv.proposal
  committed : inv.Committed → inv'.Committed ∧ inv'.acceptance = inv.acceptance
  returned : ¬ inv.Active → inv' = inv

theorem Evolves.refl (inv : Invocation) : inv.Evolves inv :=
  ⟨rfl, rfl, rfl, rfl, fun h => ⟨h, rfl, rfl⟩, fun h => ⟨h, rfl⟩, fun _ => rfl⟩

theorem Evolves.key {inv inv' : Invocation} (h : inv.Evolves inv') : inv'.key = inv.key := by
  rw [Invocation.key, h.request, Invocation.key]

/-- Only a running invocation makes calls. -/
theorem Calls.active {inv : Invocation} {addr : Addr} {msg : Message}
    (h : inv.Calls addr msg) : inv.Active := by
  cases h <;> rename_i hphase <;> simp [Active, hphase]

theorem Evolves.receives {inv inv' : Invocation} {addr : Addr} {msg : Message}
    {answer : Option Reply} (h : inv.Receives addr msg answer inv') : inv.Evolves inv' := by
  have hactive : ∀ phase, inv.phase = phase → (∀ status, phase ≠ .returned status) →
      ¬ inv.Active → inv' = inv := by
    intro phase hphase hne hnot
    cases phase <;> simp_all [Active]
  cases h with
  | skip hcall hskip =>
    refine ⟨rfl, rfl, rfl, rfl, fun hp => ⟨?_, rfl, rfl⟩, fun hc => ⟨?_, rfl⟩,
      fun hnot => absurd hcall.active hnot⟩
    · cases hcall <;> rename_i hphase <;> simp_all [Proposed, Phase.tail]
    · cases hcall <;> rename_i hphase <;> simp_all [Committed, Phase.tail]
  | live hphase hok =>
    exact ⟨rfl, rfl, rfl, rfl, by simp [Proposed, hphase], by simp [Committed, hphase],
      hactive _ hphase (by simp)⟩
  | promise hphase hok hlow =>
    exact ⟨rfl, rfl, rfl, rfl, by simp [Proposed, hphase], by simp [Committed, hphase],
      hactive _ hphase (by simp)⟩
  | promiseHigher hphase hok hhigh =>
    exact ⟨rfl, rfl, rfl, rfl, by simp [Proposed, hphase], by simp [Committed, hphase],
      hactive _ hphase (by simp)⟩
  | accept hphase hok =>
    refine ⟨rfl, rfl, rfl, rfl, fun _ => ⟨?_, rfl, rfl⟩, by simp [Committed, hphase],
      hactive _ hphase (by simp)⟩
    simp [Proposed]

/-- Only a running invocation goes on after a loop. -/
theorem Advances.active {inv inv' : Invocation} (h : inv.Advances inv') : inv.Active := by
  cases h <;> simp_all [Active]

theorem Evolves.advances {inv inv' : Invocation} (hwf : inv.Wf) (h : inv.Advances inv') :
    inv.Evolves inv' := by
  have hactive : ¬ inv.Active → inv' = inv := fun hnot => absurd h.active hnot
  cases h with
  | noneLive message hphase hlive =>
    exact ⟨rfl, rfl, rfl, rfl, by simp [Proposed, hphase], by simp [Committed, hphase], hactive⟩
  | startPrepare hphase hlive =>
    exact ⟨rfl, rfl, rfl, rfl, by simp [Proposed, hphase], by simp [Committed, hphase], hactive⟩
  | failedQuorum message hphase hcount =>
    exact ⟨rfl, rfl, rfl, rfl, by simp [Proposed, hphase], by simp [Committed, hphase], hactive⟩
  | startPropose hphase hcount =>
    exact ⟨rfl, rfl, rfl, rfl, by simp [Proposed, hphase], by simp [Committed, hphase], hactive⟩
  | failedConsensus message hphase hcount =>
    refine ⟨rfl, rfl, rfl, rfl, fun hp => ⟨?_, rfl, rfl⟩, by simp [Committed, hphase], hactive⟩
    have hmaj := hwf.promises hp
    simp only [Proposed, finish, numOfAcceptors, hwf.countPromised]
    exact hmaj.half_lt
  | startInform hphase hcount =>
    exact ⟨rfl, rfl, rfl, rfl, fun _ => ⟨trivial, rfl, rfl⟩, by simp [Committed, hphase], hactive⟩
  | done hphase =>
    refine ⟨rfl, rfl, rfl, rfl, fun hp => ⟨?_, rfl, rfl⟩, fun _ => ⟨rfl, rfl⟩, hactive⟩
    have hmaj := hwf.promises hp
    simp only [Proposed, finish, numOfAcceptors, hwf.countPromised]
    exact hmaj.half_lt

end Invocation

end PaxosKVStore
