import PaxosKVStore.KvDatabase
import PaxosKVStore.PaxosStubsMap

/-!
# The handlers of the MultiPaxos service

`MultiPaxosServiceImpl` is one server.  Each handler is a function of the
server, the context, the request and, for the two acceptor handlers, the
outcome of `RandomFail`, and returns the answer next to the new server.  The
log lines of the source are left out.  `failRate` is the configured rate as
the error texts print it.  The outcome of `RandomFail` is an input, because
any outcome is possible below rate one.

`handle` is the dispatch on the four calls that a Paxos run makes.  The
lemmas after it say, for each call, what the receiver logs, accepts and
executes, and when it answers OK.  They are stated with the pure reads of the
database, and everything later rests on them and not on the handlers.
-/

namespace PaxosKVStore

/-- `grpc::ServerContext`, of which the handlers ask `IsCancelled()`. -/
structure ServerContext where
  isCancelled : Bool := false
  deriving DecidableEq, Repr

/-- The members of the class.  The addresses of the replicas are in the
stubs map. -/
structure MultiPaxosServiceImpl where
  myPaxosAddress : Addr
  kvDb : KeyValueDataBase := {}
  paxosStubsMap : PaxosStubsMap
  failRate : String := "0"

/-- The answer of a handler whose client gave up. -/
def abandoned : Status :=
  { code := .cancelled, message := "Deadline exceeded or Client cancelled, abandoning." }

/-- The text that both acceptor handlers put into a random failure. -/
def rejection (call key : String) (round proposeId : Int) (failRate : String) : String :=
  "[Rejected] Acceptor random-failed on " ++ call ++ "[key: " ++ key ++ ", round: " ++
    toString round ++ ", propose_id: " ++ toString proposeId ++ "]. (fail_rate=" ++
    failRate ++ ")"

namespace MultiPaxosServiceImpl

/-! ## The handlers -/

/-- `GetValue` leaves the server as it is. -/
def getValue (s : MultiPaxosServiceImpl) (context : ServerContext) (request : GetRequest) :
    Status × GetResponse :=
  if context.isCancelled then (abandoned, {})
  else if request.key = "coordinator" then
    ({ code := .aborted, message := "Illegal keyword" }, {})
  else
    match s.kvDb.getValue request.key with
    | none => ({ code := .notFound, message := "Key not found." }, {})
    | some value => (Status.OK, { value := value })

/-- `GetCoordinator`, the handler. -/
def getCoordinator (s : MultiPaxosServiceImpl) (context : ServerContext) :
    Status × GetCoordinatorResponse :=
  if context.isCancelled then (abandoned, {})
  else if s.paxosStubsMap.getCoordinator = "" then
    ({ code := .notFound, message := "Coordinator not found." }, {})
  else (Status.OK, { coordinator := s.paxosStubsMap.getCoordinator })

/-- `Ping` answers OK without a look at the context. -/
def ping (_s : MultiPaxosServiceImpl) : Status := Status.OK

/-- `Prepare`, the acceptor's first phase.  The round is logged before any
check, and the promise itself is not recorded. -/
def prepare (s : MultiPaxosServiceImpl) (context : ServerContext) (request : PrepareRequest)
    (randomFail : Bool) : (Status × PromiseResponse) × MultiPaxosServiceImpl :=
  if context.isCancelled then ((abandoned, {}), s)
  else
    let kvDb := s.kvDb.addPaxosLog request.key request.round
    let response : PromiseResponse :=
      { round := request.round, proposeId := request.proposeId }
    let (paxosLog, kvDb) := kvDb.getPaxosLog request.key request.round
    let answer :=
      -- Will NOT accept PrepareRequests with propose_id <= promised_id.
      if request.proposeId ≤ paxosLog.promisedId then
        ({ code := .aborted, message := "Aborted. Proposal ID is too low." }, response)
      else if request.key ≠ "coordinator" ∧ randomFail then
        ({ code := .aborted,
           message := rejection "Prepare" request.key request.round request.proposeId
             s.failRate }, response)
      else if 0 < paxosLog.acceptedId then
        -- Piggyback accepted proposal information in response.
        (Status.OK,
          { response with
            acceptedId := paxosLog.acceptedId
            type := paxosLog.acceptedType
            value := paxosLog.acceptedValue })
      else (Status.OK, response)
    (answer, { s with kvDb := kvDb })

/-- `Propose`, the acceptor's second phase. -/
def propose (s : MultiPaxosServiceImpl) (context : ServerContext) (request : ProposeRequest)
    (randomFail : Bool) : (Status × AcceptResponse) × MultiPaxosServiceImpl :=
  if context.isCancelled then ((abandoned, {}), s)
  else
    let (paxosLog, kvDb) := s.kvDb.getPaxosLog request.key request.round
    let s := { s with kvDb := kvDb }
    -- Will NOT accept ProposeRequests with propose_id < promised_id.
    if request.proposeId < paxosLog.promisedId then
      (({ code := .aborted, message := "Aborted. Proposal ID is too low." }, {}), s)
    else if request.key ≠ "coordinator" ∧ randomFail then
      (({ code := .aborted,
          message := rejection "Propose" request.key request.round request.proposeId
            s.failRate }, {}), s)
    else
      let response : AcceptResponse :=
        { round := request.round
          proposeId := request.proposeId
          type := request.type
          value := request.value }
      let kvDb := kvDb.addPaxosLogAccepted request.key request.round request.proposeId
        request.type request.value
      ((Status.OK, response), { s with kvDb := kvDb })

/-- The switch at the end of `Inform`. -/
def execute (s : MultiPaxosServiceImpl) (key : String) (op : Operation) :
    MultiPaxosServiceImpl :=
  match op.type with
  | .set => { s with kvDb := (s.kvDb.setValue key op.value).2 }
  | .delete => { s with kvDb := (s.kvDb.deleteEntry key).2 }
  | .setCoordinator =>
      { s with paxosStubsMap := (s.paxosStubsMap.setCoordinator op.value).2 }
  | .notSet => s

/-- `Inform`, the learner. -/
def inform (s : MultiPaxosServiceImpl) (context : ServerContext) (request : InformRequest) :
    Status × MultiPaxosServiceImpl :=
  if context.isCancelled then (abandoned, s)
  else
    let acceptance := request.acceptance
    let kvDb := s.kvDb.addPaxosLogAccepted request.key acceptance.round acceptance.proposeId
      acceptance.type acceptance.value
    let (latestRound, kvDb) := kvDb.getLatestRound request.key
    let s := { s with kvDb := kvDb }
    -- Will NOT execute operation if it's not the latest round.
    if acceptance.round < latestRound then
      ({ code := .aborted, message := "Aborted. Operation overwritten by others." }, s)
    else (Status.OK, s.execute request.key acceptance.operation)

end MultiPaxosServiceImpl

/-! ## The calls of a run -/

/-- A call that `RunPaxos` makes to a replica. -/
inductive Message where
  | ping
  | prepare (request : PrepareRequest)
  | propose (request : ProposeRequest)
  | inform (request : InformRequest)
  deriving DecidableEq, Repr

/-- The answer to such a call. -/
inductive Reply where
  | ping (status : Status)
  | prepare (status : Status) (response : PromiseResponse)
  | propose (status : Status) (response : AcceptResponse)
  | inform (status : Status)
  deriving DecidableEq, Repr

def Reply.status : Reply → Status
  | .ping status => status
  | .prepare status _ => status
  | .propose status _ => status
  | .inform status => status

/-- The key and the round that a call is about.  A `Ping` has none. -/
def Message.slot : Message → Option (String × Int)
  | .ping => none
  | .prepare request => some (request.key, request.round)
  | .propose request => some (request.key, request.round)
  | .inform request => some (request.key, request.acceptance.round)

/-- The handler that answers a call. -/
def MultiPaxosServiceImpl.handle (s : MultiPaxosServiceImpl) (context : ServerContext)
    (randomFail : Bool) : Message → Reply × MultiPaxosServiceImpl
  | .ping => (.ping s.ping, s)
  | .prepare request =>
      let ((status, response), s') := s.prepare context request randomFail
      (.prepare status response, s')
  | .propose request =>
      let ((status, response), s') := s.propose context request randomFail
      (.propose status response, s')
  | .inform request =>
      let (status, s') := s.inform context request
      (.inform status, s')

/-! ## What a handled call leaves behind -/

/-- The slot of a call, unless its handler gave up at once. -/
def Message.logged (msg : Message) (reply : Reply) : Option (String × Int) :=
  if reply.status.code = .cancelled then none else msg.slot

/-- The acceptance that a handled call writes into the log: a `Propose` that
was accepted, and every `Inform`. -/
def Message.recorded (msg : Message) (reply : Reply) : Option InformRequest :=
  match msg with
  | .propose request =>
      if reply.status.ok then
        some
          { key := request.key
            acceptance :=
              { round := request.round
                proposeId := request.proposeId
                type := request.type
                value := request.value } }
      else none
  | .inform request => if reply.status.code = .cancelled then none else some request
  | _ => none

/-- The operation that a handled call executes: an `Inform` answered OK. -/
def Message.executed (msg : Message) (reply : Reply) : Option (String × Operation) :=
  match msg with
  | .inform request =>
      if reply.status.ok then some (request.key, request.acceptance.operation) else none
  | _ => none

/-- A recorded acceptance belongs to the slot of the call. -/
theorem Message.slot_of_recorded {msg : Message} {reply : Reply} {written : InformRequest}
    (h : msg.recorded reply = some written) :
    msg.slot = some (written.key, written.acceptance.round) := by
  cases msg with
  | propose request =>
    rw [Message.recorded] at h
    split at h
    · cases h
      rfl
    · cases h
  | inform request =>
    rw [Message.recorded] at h
    split at h
    · cases h
    · cases h
      rfl
  | _ => cases h

/-- An operation is executed under the key of the call. -/
theorem Message.slot_of_executed {msg : Message} {reply : Reply} {key : String}
    {op : Operation} (h : msg.executed reply = some (key, op)) :
    ∃ r, msg.slot = some (key, r) := by
  cases msg with
  | inform request =>
    rw [Message.executed] at h
    split at h
    · cases h
      exact ⟨_, rfl⟩
    · cases h
  | _ => cases h

/-- What an operation leaves of the value that was there before it. -/
def Operation.effect (op : Operation) (before : Option String) : Option String :=
  match op.type with
  | .set => some op.value
  | .delete => none
  | .setCoordinator => before
  | .notSet => before

/-- The log of a slot after an acceptance was written to it. -/
def PaxosLog.accept (log : PaxosLog) (acceptance : AcceptResponse) : PaxosLog :=
  { log with
    acceptedId := acceptance.proposeId
    acceptedType := acceptance.type
    acceptedValue := acceptance.value }

/-- The difference between a server before and after a handled call. -/
structure Handled (s s' : MultiPaxosServiceImpl) (msg : Message) (reply : Reply) : Prop where
  address : s'.myPaxosAddress = s.myPaxosAddress
  stubs : s'.paxosStubsMap.stubs = s.paxosStubsMap.stubs
  rounds : ∀ key r, r ∈ s'.kvDb.rounds key ↔
    msg.logged reply = some (key, r) ∨ r ∈ s.kvDb.rounds key
  log : ∀ key r, s'.kvDb.paxosLog key r =
    match msg.recorded reply with
    | some written =>
        if key = written.key ∧ r = written.acceptance.round then
          (s.kvDb.paxosLog key r).accept written.acceptance
        else s.kvDb.paxosLog key r
    | none => s.kvDb.paxosLog key r
  value : ∀ key, s'.kvDb.getValue key =
    match msg.executed reply with
    | some (key', op) =>
        if key = key' then op.effect (s.kvDb.getValue key) else s.kvDb.getValue key
    | none => s.kvDb.getValue key
  coordinator : s'.paxosStubsMap.coordinator =
    match msg.executed reply with
    | some (_, op) =>
        if op.type = .setCoordinator ∧ op.value ∈ s.paxosStubsMap.stubs.addrs then op.value
        else s.paxosStubsMap.coordinator
    | none => s.paxosStubsMap.coordinator

/-- A call leaves the entries and the logs of the other keys alone. -/
theorem Handled.frame {s s' : MultiPaxosServiceImpl} {msg : Message} {reply : Reply}
    (h : Handled s s' msg reply) {key : String} (hslot : ∀ slot ∈ msg.slot, slot.1 ≠ key) :
    s'.kvDb.rounds key = s.kvDb.rounds key ∧
      (∀ r, s'.kvDb.paxosLog key r = s.kvDb.paxosLog key r) ∧
      s'.kvDb.getValue key = s.kvDb.getValue key := by
  refine ⟨?_, fun r => ?_, ?_⟩
  · ext r
    rw [h.rounds, or_iff_right]
    intro hlogged
    rw [Message.logged] at hlogged
    split at hlogged
    · cases hlogged
    · exact hslot _ hlogged rfl
  · rw [h.log]
    split
    · rename_i written hrecorded
      refine if_neg fun hat => ?_
      exact hslot _ (Message.slot_of_recorded hrecorded) hat.1.symm
    · rfl
  · rw [h.value]
    split
    · rename_i key' op hexecuted
      refine if_neg fun hat => ?_
      obtain ⟨r, hslot'⟩ := Message.slot_of_executed hexecuted
      exact hslot _ hslot' hat.symm
    · rfl

namespace MultiPaxosServiceImpl

/-! ## What the acceptor handlers answer -/

section Handlers

variable (s : MultiPaxosServiceImpl) (randomFail : Bool)

/-- A random failure counts for every key but the reserved one. -/
def Rejects (key : String) (randomFail : Bool) : Prop :=
  key ≠ "coordinator" ∧ randomFail = true

instance (key : String) (randomFail : Bool) : Decidable (Rejects key randomFail) :=
  inferInstanceAs (Decidable (_ ∧ _))

/-- `Prepare` promises unless the logged promise is as high or the acceptor
fails at random. -/
theorem prepare_ok_iff (request : PrepareRequest) :
    (s.prepare {} request randomFail).1.1.ok = true ↔
      (s.kvDb.paxosLog request.key request.round).promisedId < request.proposeId ∧
        ¬ Rejects request.key randomFail := by
  rw [← not_le]
  by_cases hlow : request.proposeId ≤ (s.kvDb.paxosLog request.key request.round).promisedId
  · simp [prepare, KeyValueDataBase.getPaxosLog, hlow]
  · by_cases hfail : request.key ≠ "coordinator" ∧ randomFail = true
    · simp [prepare, KeyValueDataBase.getPaxosLog, hlow, Rejects, hfail]
    · simp only [prepare, KeyValueDataBase.getPaxosLog, KeyValueDataBase.paxosLog_addPaxosLog,
        hlow, hfail, Rejects, Bool.false_eq_true, if_false, not_false_iff, and_self, iff_true]
      split <;> rfl

/-- A promise carries the logged acceptance if there is one. -/
theorem prepare_response (request : PrepareRequest)
    (hok : (s.prepare {} request randomFail).1.1.ok = true) :
    (s.prepare {} request randomFail).1.2 =
      if 0 < (s.kvDb.paxosLog request.key request.round).acceptedId then
        { round := request.round
          proposeId := request.proposeId
          acceptedId := (s.kvDb.paxosLog request.key request.round).acceptedId
          type := (s.kvDb.paxosLog request.key request.round).acceptedType
          value := (s.kvDb.paxosLog request.key request.round).acceptedValue }
      else { round := request.round, proposeId := request.proposeId } := by
  obtain ⟨hlow, hfail⟩ := (prepare_ok_iff s randomFail request).mp hok
  rw [← not_le] at hlow
  rw [Rejects] at hfail
  simp only [prepare, KeyValueDataBase.getPaxosLog, KeyValueDataBase.paxosLog_addPaxosLog,
    hlow, hfail, Bool.false_eq_true, if_false]
  split <;> rfl

/-- A promise carries the logged acceptance, and id 0 if there is none. -/
theorem prepare_carries (request : PrepareRequest)
    (hok : (s.prepare {} request randomFail).1.1.ok = true) :
    (0 < (s.kvDb.paxosLog request.key request.round).acceptedId ∧
      (s.prepare {} request randomFail).1.2.acceptedId =
        (s.kvDb.paxosLog request.key request.round).acceptedId ∧
      (s.prepare {} request randomFail).1.2.operation =
        (s.kvDb.paxosLog request.key request.round).operation) ∨
    (¬ 0 < (s.kvDb.paxosLog request.key request.round).acceptedId ∧
      (s.prepare {} request randomFail).1.2.acceptedId = 0) := by
  rw [prepare_response s randomFail request hok]
  split
  · rename_i h
    exact Or.inl ⟨h, rfl, rfl⟩
  · rename_i h
    exact Or.inr ⟨h, rfl⟩

/-- `Propose` accepts unless a higher promise is logged or the acceptor fails
at random. -/
theorem propose_ok_iff (request : ProposeRequest) :
    (s.propose {} request randomFail).1.1.ok = true ↔
      (s.kvDb.paxosLog request.key request.round).promisedId ≤ request.proposeId ∧
        ¬ Rejects request.key randomFail := by
  rw [← not_lt]
  by_cases hlow : request.proposeId < (s.kvDb.paxosLog request.key request.round).promisedId
  · simp [propose, KeyValueDataBase.getPaxosLog, hlow]
  · by_cases hfail : request.key ≠ "coordinator" ∧ randomFail = true
    · simp [propose, KeyValueDataBase.getPaxosLog, hlow, Rejects, hfail]
    · simp [propose, KeyValueDataBase.getPaxosLog, hlow, Rejects, hfail]

/-- An acceptance repeats the proposal. -/
theorem propose_response (request : ProposeRequest)
    (hok : (s.propose {} request randomFail).1.1.ok = true) :
    (s.propose {} request randomFail).1.2 =
      { round := request.round
        proposeId := request.proposeId
        type := request.type
        value := request.value } := by
  obtain ⟨hlow, hfail⟩ := (propose_ok_iff s randomFail request).mp hok
  rw [← not_lt] at hlow
  rw [Rejects] at hfail
  simp only [propose, KeyValueDataBase.getPaxosLog, hlow, hfail, Bool.false_eq_true, if_false]

/-- `Inform` executes unless a higher round of the key is logged. -/
theorem inform_ok_iff (request : InformRequest) :
    (s.inform {} request).1.ok = true ↔
      ¬ s.kvDb.Supersedes request.key request.acceptance.round := by
  have hround : request.acceptance.round ∈
      (s.kvDb.addPaxosLogAccepted request.key request.acceptance.round
        request.acceptance.proposeId request.acceptance.type
        request.acceptance.value).rounds request.key := by
    rw [KeyValueDataBase.addPaxosLogAccepted, KeyValueDataBase.mem_rounds_updateLog]
    exact Or.inl ⟨rfl, rfl⟩
  have hsuper := KeyValueDataBase.lt_latestRound_iff hround
  have hsame : (s.kvDb.addPaxosLogAccepted request.key request.acceptance.round
      request.acceptance.proposeId request.acceptance.type
      request.acceptance.value).Supersedes request.key request.acceptance.round ↔
      s.kvDb.Supersedes request.key request.acceptance.round := by
    refine KeyValueDataBase.supersedes_congr fun r hlt => ?_
    rw [KeyValueDataBase.addPaxosLogAccepted, KeyValueDataBase.mem_rounds_updateLog]
    have hne : r ≠ request.acceptance.round := ne_of_gt hlt
    simp [hne]
  rw [← hsame, ← hsuper]
  simp only [inform, KeyValueDataBase.getLatestRound, Bool.false_eq_true, if_false]
  split_ifs with h <;> simp [h]

/-- A prepare that was not given up is not answered CANCELLED. -/
theorem prepare_not_cancelled (request : PrepareRequest) :
    (s.prepare {} request randomFail).1.1.code ≠ .cancelled := by
  simp only [prepare, Bool.false_eq_true, if_false]
  split_ifs <;> simp [Status.OK]

theorem propose_not_cancelled (request : ProposeRequest) :
    (s.propose {} request randomFail).1.1.code ≠ .cancelled := by
  simp only [propose, Bool.false_eq_true, if_false]
  split_ifs <;> simp [Status.OK]

theorem inform_not_cancelled (request : InformRequest) :
    (s.inform {} request).1.code ≠ .cancelled := by
  simp only [inform, Bool.false_eq_true, if_false]
  split_ifs <;> simp [Status.OK]

/-- A call that was not given up logs its slot. -/
theorem handle_logged (msg : Message) :
    msg.logged (s.handle {} randomFail msg).1 = msg.slot := by
  rw [Message.logged, if_neg]
  cases msg with
  | ping => exact fun h => by cases h
  | prepare request => exact prepare_not_cancelled s randomFail request
  | propose request => exact propose_not_cancelled s randomFail request
  | inform request => exact inform_not_cancelled s request

/-- A call that logs, records and executes nothing leaves the server as it is. -/
theorem handled_self {msg : Message} {reply : Reply} (hlogged : msg.logged reply = none)
    (hrecorded : msg.recorded reply = none) (hexecuted : msg.executed reply = none) :
    Handled s s msg reply := by
  constructor <;> simp [hlogged, hrecorded, hexecuted]

theorem prepare_handled (request : PrepareRequest) :
    Handled s (s.handle {} randomFail (.prepare request)).2 (.prepare request)
      (s.handle {} randomFail (.prepare request)).1 := by
  have hnc := prepare_not_cancelled s randomFail request
  have hlogged : (Message.prepare request).logged
      (s.handle {} randomFail (.prepare request)).1 = some (request.key, request.round) := by
    rw [Message.logged, if_neg (by exact hnc)]
    rfl
  refine ⟨rfl, rfl, ?_, ?_, fun _ => rfl, rfl⟩
  · intro key r
    rw [hlogged]
    show r ∈ ((s.kvDb.addPaxosLog request.key request.round).updateLog
      request.key request.round id).rounds key ↔ _
    simp only [KeyValueDataBase.addPaxosLog, KeyValueDataBase.mem_rounds_updateLog,
      Option.some.injEq, Prod.mk.injEq]
    tauto
  · intro key r
    show ((s.kvDb.addPaxosLog request.key request.round).updateLog
      request.key request.round id).paxosLog key r = s.kvDb.paxosLog key r
    exact (KeyValueDataBase.paxosLog_addPaxosLog _ _ _ _ _).trans
      (KeyValueDataBase.paxosLog_addPaxosLog _ _ _ _ _)

/-- `Propose` creates the log it reads, and writes to it when it accepts. -/
theorem propose_server (request : ProposeRequest) :
    (s.propose {} request randomFail).2 =
      if (s.propose {} request randomFail).1.1.ok then
        { s with
          kvDb := (s.kvDb.addPaxosLog request.key request.round).addPaxosLogAccepted
            request.key request.round request.proposeId request.type request.value }
      else { s with kvDb := s.kvDb.addPaxosLog request.key request.round } := by
  by_cases hlow : request.proposeId < (s.kvDb.paxosLog request.key request.round).promisedId
  · simp [propose, KeyValueDataBase.getPaxosLog, KeyValueDataBase.addPaxosLog, hlow]
  · by_cases hfail : request.key ≠ "coordinator" ∧ randomFail = true
    · simp [propose, KeyValueDataBase.getPaxosLog, KeyValueDataBase.addPaxosLog, hlow, hfail]
    · simp [propose, KeyValueDataBase.getPaxosLog, KeyValueDataBase.addPaxosLog, hlow, hfail]

theorem propose_handled (request : ProposeRequest) :
    Handled s (s.handle {} randomFail (.propose request)).2 (.propose request)
      (s.handle {} randomFail (.propose request)).1 := by
  have hnc := propose_not_cancelled s randomFail request
  have hserver := propose_server s randomFail request
  simp only [handle]
  generalize s.propose {} request randomFail = answer at hnc hserver ⊢
  obtain ⟨⟨status, response⟩, s'⟩ := answer
  simp only at hnc hserver ⊢
  have hlogged : (Message.propose request).logged (.propose status response) =
      some (request.key, request.round) := if_neg hnc
  rw [hserver]
  cases hok : status.ok with
  | true =>
    refine ⟨rfl, rfl, ?_, ?_, fun _ => rfl, rfl⟩
    · intro key r
      rw [hlogged]
      simp only [if_true, KeyValueDataBase.addPaxosLog, KeyValueDataBase.addPaxosLogAccepted,
        KeyValueDataBase.mem_rounds_updateLog, Option.some.injEq, Prod.mk.injEq]
      tauto
    · intro key r
      simp only [Message.recorded, Reply.status, hok, if_true,
        KeyValueDataBase.addPaxosLogAccepted, KeyValueDataBase.paxosLog_updateLog,
        KeyValueDataBase.paxosLog_addPaxosLog, PaxosLog.accept]
      split_ifs with h
      · rw [h.1, h.2]
      · rfl
  | false =>
    refine ⟨rfl, rfl, ?_, ?_, fun _ => rfl, rfl⟩
    · intro key r
      rw [hlogged]
      simp only [Bool.false_eq_true, if_false, KeyValueDataBase.addPaxosLog,
        KeyValueDataBase.mem_rounds_updateLog, Option.some.injEq, Prod.mk.injEq]
      tauto
    · intro key r
      simp [Message.recorded, Reply.status, hok]

/-- `Inform` records its acceptance and then executes it or not. -/
theorem inform_server (request : InformRequest) :
    (s.inform {} request).2 =
      let s' :=
        { s with
          kvDb := (s.kvDb.addPaxosLogAccepted request.key request.acceptance.round
            request.acceptance.proposeId request.acceptance.type
            request.acceptance.value).touchKey request.key }
      if (s.inform {} request).1.ok then s'.execute request.key request.acceptance.operation
      else s' := by
  by_cases h : request.acceptance.round <
      (s.kvDb.addPaxosLogAccepted request.key request.acceptance.round
        request.acceptance.proposeId request.acceptance.type
        request.acceptance.value).latestRound request.key
  · simp [inform, KeyValueDataBase.getLatestRound, h]
  · simp only [inform, KeyValueDataBase.getLatestRound, h, Bool.false_eq_true, if_false,
      Status.ok_OK, if_true]

section Execute

variable (key key' : String) (round : Int) (op : Operation)

theorem rounds_execute : (s.execute key op).kvDb.rounds key' = s.kvDb.rounds key' := by
  unfold execute
  split <;> rfl

theorem paxosLog_execute :
    (s.execute key op).kvDb.paxosLog key' round = s.kvDb.paxosLog key' round := by
  unfold execute
  split <;> rfl

theorem getValue_execute :
    (s.execute key op).kvDb.getValue key' =
      if key' = key then op.effect (s.kvDb.getValue key') else s.kvDb.getValue key' := by
  unfold execute Operation.effect
  split
  · exact KeyValueDataBase.getValue_setValue _ _ _ _
  · exact KeyValueDataBase.getValue_deleteEntry _ _ _
  · simp
  · simp

theorem coordinator_execute :
    (s.execute key op).paxosStubsMap.coordinator =
      if op.type = .setCoordinator ∧ op.value ∈ s.paxosStubsMap.stubs.addrs then op.value
      else s.paxosStubsMap.coordinator := by
  unfold execute
  split <;> simp_all [PaxosStubsMap.coordinator_setCoordinator]

theorem stubs_execute :
    (s.execute key op).paxosStubsMap.stubs = s.paxosStubsMap.stubs := by
  unfold execute
  split <;> simp

theorem address_execute : (s.execute key op).myPaxosAddress = s.myPaxosAddress := by
  unfold execute
  split <;> rfl

end Execute

section Inform

variable (db : KeyValueDataBase) (request : InformRequest) (key : String) (r : Int)

/-- `Inform` logs the round of its acceptance. -/
theorem mem_rounds_inform :
    r ∈ ((db.addPaxosLogAccepted request.key request.acceptance.round
      request.acceptance.proposeId request.acceptance.type
      request.acceptance.value).touchKey request.key).rounds key ↔
      some (request.key, request.acceptance.round) = some (key, r) ∨ r ∈ db.rounds key := by
  rw [KeyValueDataBase.rounds_touchKey, KeyValueDataBase.addPaxosLogAccepted,
    KeyValueDataBase.mem_rounds_updateLog]
  simp only [Option.some.injEq, Prod.mk.injEq]
  tauto

theorem paxosLog_inform :
    ((db.addPaxosLogAccepted request.key request.acceptance.round
      request.acceptance.proposeId request.acceptance.type
      request.acceptance.value).touchKey request.key).paxosLog key r =
      if key = request.key ∧ r = request.acceptance.round then
        (db.paxosLog key r).accept request.acceptance
      else db.paxosLog key r := by
  rw [KeyValueDataBase.paxosLog_touchKey, KeyValueDataBase.addPaxosLogAccepted,
    KeyValueDataBase.paxosLog_updateLog]
  split_ifs with h
  · rw [h.1, h.2]
    rfl
  · rfl

end Inform

theorem inform_handled (request : InformRequest) :
    Handled s (s.handle {} randomFail (.inform request)).2 (.inform request)
      (s.handle {} randomFail (.inform request)).1 := by
  have hnc := inform_not_cancelled s request
  have hserver := inform_server s request
  simp only [handle]
  generalize s.inform {} request = answer at hnc hserver ⊢
  obtain ⟨status, s'⟩ := answer
  simp only at hnc hserver ⊢
  have hlogged : (Message.inform request).logged (.inform status) =
      some (request.key, request.acceptance.round) := if_neg hnc
  have hrecorded : (Message.inform request).recorded (.inform status) = some request :=
    if_neg hnc
  rw [hserver]
  cases hok : status.ok with
  | true =>
    have hexecuted : (Message.inform request).executed (.inform status) =
        some (request.key, request.acceptance.operation) := if_pos hok
    simp only [if_true]
    refine ⟨address_execute _ _ _, stubs_execute _ _ _, ?_, ?_, ?_, ?_⟩
    · intro key r
      rw [hlogged, rounds_execute]
      exact mem_rounds_inform s.kvDb request key r
    · intro key r
      rw [hrecorded, paxosLog_execute]
      exact paxosLog_inform s.kvDb request key r
    · intro key
      rw [hexecuted, getValue_execute]
      rfl
    · rw [hexecuted, coordinator_execute]
  | false =>
    have hexecuted : (Message.inform request).executed (.inform status) = none :=
      if_neg (by simp [Reply.status, hok])
    simp only [Bool.false_eq_true, if_false]
    refine ⟨rfl, rfl, ?_, ?_, ?_, ?_⟩
    · intro key r
      rw [hlogged]
      exact mem_rounds_inform s.kvDb request key r
    · intro key r
      rw [hrecorded]
      exact paxosLog_inform s.kvDb request key r
    · intro key
      rw [hexecuted]
      rfl
    · rw [hexecuted]

/-- Every call changes its receiver as `Handled` says. -/
theorem handle_handled (context : ServerContext) (msg : Message) :
    Handled s (s.handle context randomFail msg).2 msg (s.handle context randomFail msg).1 := by
  obtain ⟨isCancelled⟩ := context
  cases isCancelled with
  | false =>
    cases msg with
    | ping => exact handled_self s rfl rfl rfl
    | prepare request => exact prepare_handled s randomFail request
    | propose request => exact propose_handled s randomFail request
    | inform request => exact inform_handled s randomFail request
  | true =>
    cases msg with
    | ping => exact handled_self s rfl rfl rfl
    | prepare request => exact handled_self s rfl rfl rfl
    | propose request => exact handled_self s rfl rfl rfl
    | inform request => exact handled_self s rfl rfl rfl

end Handlers

end MultiPaxosServiceImpl

end PaxosKVStore
