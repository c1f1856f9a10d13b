import PaxosKVStore.Lib.Visit
import PaxosKVStore.History

/-!
# `RunPaxos` without other invocations beside it

`runPaxos` is the whole function, with its four loops and three tests, as one
function of the servers.  What becomes of its calls, and what `RandomFail`
draws at their receivers, is in `Outcomes`.  The request flow and the start-up
of a server are built on it, because there requests are handled one at a time.

`SoloCases` says with what it returns and what it leaves: the live set, the
promises and the proposal are read off the servers before the loops, since no
loop visits a server twice.  `exists_reachable_runPaxos` is the connection to
the interleaved system, of which `runPaxos` is one schedule.
-/

namespace PaxosKVStore

/-- The servers by address. -/
abbrev Servers := Addr → MultiPaxosServiceImpl

/-- What becomes of the calls of an invocation, and what `RandomFail` draws
at their receivers. -/
structure Outcomes where
  fate : Message → Addr → Fate
  randomFail : Message → Addr → Bool

/-- The calls to `reach` are delivered, and the others fail without effect. -/
def Outcomes.within (reach : Addr → Bool) (randomFail : Message → Addr → Bool) : Outcomes where
  fate _ addr := if reach addr then .delivered else .lost
  randomFail := randomFail

/-- One call: the answer that the caller gets, and the receiver after it. -/
def Outcomes.exchange (o : Outcomes) (msg : Message) (receiver : Addr)
    (service : MultiPaxosServiceImpl) : Option Reply × MultiPaxosServiceImpl :=
  let (reply, service') := service.handle {} (o.randomFail msg receiver) msg
  match o.fate msg receiver with
  | .delivered => (some reply, service')
  | .lost => (none, service)
  | .replyLost => (none, service')

/-- The promise that an answer to a `Prepare` gives. -/
def Reply.promise : Reply → Option PromiseResponse
  | .prepare status response => if status.ok then some response else none
  | _ => none

/-- One of the loops of `RunPaxos`. -/
def forEach (o : Outcomes) (msg : Message) (stubs : List Addr) (inv : Invocation)
    (servers : Servers) : Invocation × Servers :=
  visit (o.exchange msg) Invocation.receive stubs inv servers

/-- The servers after `server` has read the latest round. -/
def entered (servers : Servers) (server : Addr) (request : Request) : Servers :=
  Function.update servers server
    { servers server with kvDb := ((servers server).kvDb.getLatestRound request.key).2 }

/-- `RunPaxos` on `server`. -/
def runPaxos (o : Outcomes) (servers : Servers) (server : Addr) (request : Request) :
    Status × Servers :=
  let inv := Invocation.enter server (servers server) request
  let servers := entered servers server request
  -- Ping.
  let (inv, servers) := forEach o .ping inv.paxosStubs inv servers
  if inv.livePaxosStubs = [] then (Invocation.noneLive, servers)
  else
    -- Prepare.
    let (inv, servers) :=
      forEach o (.prepare inv.prepareReq) inv.livePaxosStubs inv servers
    if inv.numOfPromised ≤ inv.numOfAcceptors / 2 then (inv.failedQuorum, servers)
    else
      -- Propose.
      let (inv, servers) :=
        forEach o (.propose inv.proposeReq) inv.livePaxosStubs inv servers
      if inv.numOfAccepted ≤ inv.numOfAcceptors / 2 then (inv.failedConsensus, servers)
      else
        -- Inform Learners.
        let (_, servers) := forEach o (.inform inv.informReq) inv.livePaxosStubs inv servers
        (Status.OK, servers)

namespace Solo

/-! ## What the loops find -/

section Values

variable (o : Outcomes) (servers : Servers) (server : Addr) (request : Request)

/-- The round of the invocation. -/
def round : Int := (servers server).kvDb.latestRound request.key + 1

/-- The replicas that answer the `Ping`. -/
def live : List Addr :=
  (servers server).paxosStubsMap.getPaxosStubs.filter fun a => o.fate .ping a = .delivered

def prepareMsg : Message :=
  .prepare { key := request.key, round := round servers server request, proposeId := 1 }

/-- The promise of a replica, if it gives one and the answer arrives. -/
def promiseOf (a : Addr) : Option PromiseResponse :=
  (o.exchange (prepareMsg servers server request) a (entered servers server request a)).1.bind
    Reply.promise

/-- The promises in the order of the addresses. -/
def promises : List PromiseResponse :=
  (live o servers server).filterMap (promiseOf o servers server request)

/-- Of two promises, the one with the higher accepted id, and the earlier one
of two with the same. -/
def higher (best response : PromiseResponse) : PromiseResponse :=
  if best.acceptedId < response.acceptedId then response else best

/-- The promise with the highest accepted id, or one without an acceptance. -/
def bestPromise : PromiseResponse := (promises o servers server request).foldl higher {}

/-- The operation that is proposed. -/
def proposal : Operation :=
  if 0 < (bestPromise o servers server request).acceptedId then
    (bestPromise o servers server request).operation
  else request.setProposeValue

/-- The servers after the prepare loop. -/
def prepared : Servers :=
  visited (o.exchange (prepareMsg servers server request)) (live o servers server)
    (entered servers server request)

def proposeMsg : Message :=
  .propose
    { key := request.key
      round := round servers server request
      proposeId := 1
      type := (proposal o servers server request).type
      value := (proposal o servers server request).value }

/-- The replica accepts the proposal, and the answer arrives. -/
def accepts (a : Addr) : Bool :=
  (o.exchange (proposeMsg o servers server request) a
    (prepared o servers server request a)).1.any fun reply => reply.status.ok

/-- The replicas whose acceptances arrive. -/
def acceptors : List Addr :=
  (live o servers server).filter (accepts o servers server request)

/-- The servers after the propose loop. -/
def proposed : Servers :=
  visited (o.exchange (proposeMsg o servers server request)) (live o servers server)
    (prepared o servers server request)

def informReq : InformRequest :=
  { key := request.key
    acceptance :=
      { round := round servers server request
        proposeId := 1
        type := (proposal o servers server request).type
        value := (proposal o servers server request).value } }

/-- The servers after the inform loop. -/
def informed : Servers :=
  visited (o.exchange (.inform (informReq o servers server request))) (live o servers server)
    (proposed o servers server request)

end Values

/-! ## The loops -/

section Loops

variable (inv : Invocation) (stubs : List Addr) {answer : Addr → Option Reply}

/-- The ping loop collects the replicas that answered. -/
theorem foldl_ping (hanswer : ∀ a, answer a = none ∨ answer a = some (.ping Status.OK)) :
    ∃ phase, stubs.foldl (fun inv a => inv.receive a (answer a)) inv =
      { inv with
        phase := phase
        livePaxosStubs := inv.livePaxosStubs ++ stubs.filter fun a => (answer a).isSome } := by
  induction stubs generalizing inv with
  | nil => exact ⟨inv.phase, by simp⟩
  | cons a rest ih =>
    obtain ⟨phase, hrest⟩ := ih (inv.receive a (answer a))
    refine ⟨phase, ?_⟩
    rw [List.foldl_cons, hrest]
    rcases hanswer a with hnone | hsome
    · simp [hnone, Invocation.receive]
    · simp [hsome, Invocation.receive, Invocation.pinged]

/-- An answer without a promise only moves the loop on. -/
theorem receive_of_no_promise (a : Addr) {reply : Option Reply}
    (hreply : reply = none ∨ ∃ status response, reply = some (.prepare status response))
    (hnone : reply.bind Reply.promise = none) :
    inv.receive a reply = { inv with phase := inv.phase.tail } := by
  rcases hreply with rfl | ⟨status, response, rfl⟩
  · rfl
  · cases hok : status.ok with
    | false => simp [Invocation.receive, Invocation.promised, hok]
    | true => simp [Reply.promise, hok] at hnone

/-- A promise is counted, and the higher acceptance is kept. -/
theorem receive_of_promise (a : Addr) {reply : Option Reply} {best response : PromiseResponse}
    (hsome : reply.bind Reply.promise = some response) (hid : inv.acceptedId = best.acceptedId)
    (htype : inv.acceptedType = best.type) (hvalue : inv.acceptedValue = best.value) :
    inv.receive a reply =
      { inv with
        phase := inv.phase.tail
        numOfPromised := inv.numOfPromised + 1
        promisedBy := inv.promisedBy ++ [a]
        acceptedId := (higher best response).acceptedId
        acceptedType := (higher best response).type
        acceptedValue := (higher best response).value } := by
  obtain ⟨reply, rfl, hpromise⟩ := Option.bind_eq_some_iff.mp hsome
  cases reply with
  | prepare status response' =>
    rw [Reply.promise] at hpromise
    split at hpromise
    · rename_i hok
      cases hpromise
      simp only [Invocation.receive, Invocation.promised, hok, if_true, higher, hid]
      split
      · rfl
      · rw [← hid, ← htype, ← hvalue]
    · cases hpromise
  | _ => cases hpromise

/-- The prepare loop counts the promises and keeps the highest acceptance. -/
theorem foldl_prepare
    (hanswer : ∀ a, answer a = none ∨ ∃ status response,
      answer a = some (.prepare status response))
    (best : PromiseResponse) (hid : inv.acceptedId = best.acceptedId)
    (htype : inv.acceptedType = best.type) (hvalue : inv.acceptedValue = best.value) :
    ∃ phase promisedBy, stubs.foldl (fun inv a => inv.receive a (answer a)) inv =
      { inv with
        phase := phase
        numOfPromised :=
          inv.numOfPromised + (stubs.filterMap fun a => (answer a).bind Reply.promise).length
        promisedBy := promisedBy
        acceptedId := ((stubs.filterMap fun a => (answer a).bind Reply.promise).foldl
          higher best).acceptedId
        acceptedType := ((stubs.filterMap fun a => (answer a).bind Reply.promise).foldl
          higher best).type
        acceptedValue := ((stubs.filterMap fun a => (answer a).bind Reply.promise).foldl
          higher best).value } := by
  induction stubs generalizing inv best with
  | nil => exact ⟨inv.phase, inv.promisedBy, by simp [← hid, ← htype, ← hvalue]⟩
  | cons a rest ih =>
    rw [List.foldl_cons]
    cases hpromise : (answer a).bind Reply.promise with
    | none =>
      have hreceive := receive_of_no_promise inv a (hanswer a) hpromise
      obtain ⟨phase, promisedBy, hrest⟩ := ih (inv.receive a (answer a)) best
        (by rw [hreceive]; exact hid) (by rw [hreceive]; exact htype)
        (by rw [hreceive]; exact hvalue)
      have hhead : ((a :: rest).filterMap fun a => (answer a).bind Reply.promise) =
          rest.filterMap fun a => (answer a).bind Reply.promise :=
        List.filterMap_cons_none hpromise
      exact ⟨phase, promisedBy, by rw [hrest, hreceive, hhead]⟩
    | some response =>
      have hreceive := receive_of_promise inv a hpromise hid htype hvalue
      obtain ⟨phase, promisedBy, hrest⟩ := ih (inv.receive a (answer a))
        (higher best response) (by rw [hreceive]) (by rw [hreceive]) (by rw [hreceive])
      have hhead : ((a :: rest).filterMap fun a => (answer a).bind Reply.promise) =
          response :: rest.filterMap fun a => (answer a).bind Reply.promise :=
        List.filterMap_cons_some hpromise
      refine ⟨phase, promisedBy, ?_⟩
      rw [hrest, hreceive, hhead, List.foldl_cons, List.length_cons]
      simp [Nat.add_assoc, Nat.add_comm]

/-- The propose loop counts the acceptances and keeps one of them. -/
theorem foldl_propose {acceptance : AcceptResponse}
    (hanswer : ∀ a, answer a = none ∨ ∃ status response,
      answer a = some (.propose status response) ∧ (status.ok = true → response = acceptance)) :
    ∃ phase acceptedBy, stubs.foldl (fun inv a => inv.receive a (answer a)) inv =
      { inv with
        phase := phase
        numOfAccepted := inv.numOfAccepted +
          (stubs.filter fun a => (answer a).any fun reply => reply.status.ok).length
        acceptance :=
          if (stubs.filter fun a => (answer a).any fun reply => reply.status.ok) = [] then
            inv.acceptance
          else acceptance
        acceptedBy := acceptedBy } := by
  induction stubs generalizing inv with
  | nil => exact ⟨inv.phase, inv.acceptedBy, by simp⟩
  | cons a rest ih =>
    obtain ⟨phase, acceptedBy, hrest⟩ := ih (inv.receive a (answer a))
    refine ⟨phase, acceptedBy, ?_⟩
    rw [List.foldl_cons, hrest]
    rcases hanswer a with hnone | ⟨status, response, hsome, hresponse⟩
    · simp [hnone, Invocation.receive]
    · cases hok : status.ok with
      | false => simp [hsome, Invocation.receive, Invocation.accepted, Reply.status, hok]
      | true =>
        simp [hsome, Invocation.receive, Invocation.accepted, Reply.status, hok,
          hresponse hok, Nat.add_assoc, Nat.add_comm]

end Loops

/-! ## The answers -/

section Answers

variable (o : Outcomes) (a : Addr) (s : MultiPaxosServiceImpl)

theorem exchange_ping :
    ((o.exchange .ping a s).1 = none ∨ (o.exchange .ping a s).1 = some (.ping Status.OK)) ∧
      ((o.exchange .ping a s).1.isSome = true ↔ o.fate .ping a = .delivered) ∧
      (o.exchange .ping a s).2 = s := by
  cases h : o.fate .ping a <;>
    simp [Outcomes.exchange, h, MultiPaxosServiceImpl.handle, MultiPaxosServiceImpl.ping]

theorem exchange_prepare (req : PrepareRequest) :
    (o.exchange (.prepare req) a s).1 = none ∨ ∃ status response,
      (o.exchange (.prepare req) a s).1 = some (.prepare status response) := by
  cases h : o.fate (.prepare req) a <;>
    simp [Outcomes.exchange, h, MultiPaxosServiceImpl.handle]

theorem exchange_propose (req : ProposeRequest) :
    (o.exchange (.propose req) a s).1 = none ∨ ∃ status response,
      (o.exchange (.propose req) a s).1 = some (.propose status response) ∧
        (status.ok = true → response =
          { round := req.round
            proposeId := req.proposeId
            type := req.type
            value := req.value }) := by
  have hresponse := s.propose_response (o.randomFail (.propose req) a) req
  cases h : o.fate (.propose req) a with
  | delivered =>
    refine Or.inr ⟨_, _, ?_, hresponse⟩
    simp [Outcomes.exchange, h, MultiPaxosServiceImpl.handle]
  | lost => simp [Outcomes.exchange, h]
  | replyLost => simp [Outcomes.exchange, h]

end Answers

/-! ## How it returns -/

section Cases

variable (o : Outcomes) (servers : Servers) (server : Addr) (request : Request)

/-- The four ways to return, with the servers that each leaves. -/
inductive SoloCases : Status × Servers → Prop where
  | noneLive (message : String) (hlive : live o servers server = []) :
      SoloCases ({ code := .aborted, message := message }, entered servers server request)
  | failedQuorum (message : String) (hlive : live o servers server ≠ [])
      (hcount : (promises o servers server request).length ≤ (live o servers server).length / 2) :
      SoloCases ({ code := .aborted, message := message }, prepared o servers server request)
  | failedConsensus (message : String)
      (hquorum : (live o servers server).length / 2 < (promises o servers server request).length)
      (hcount : (acceptors o servers server request).length ≤
        (live o servers server).length / 2) :
      SoloCases ({ code := .aborted, message := message }, proposed o servers server request)
  | done
      (hquorum : (live o servers server).length / 2 < (promises o servers server request).length)
      (hconsensus : (live o servers server).length / 2 <
        (acceptors o servers server request).length) :
      SoloCases (Status.OK, informed o servers server request)

theorem live_nodup : (live o servers server).Nodup :=
  (servers server).paxosStubsMap.getPaxosStubs_nodup.filter _

/-- The invocation after the ping loop. -/
theorem forEach_ping : ∃ phase,
    forEach o .ping (Invocation.enter server (servers server) request).paxosStubs
        (Invocation.enter server (servers server) request) (entered servers server request) =
      ({ Invocation.enter server (servers server) request with
          phase := phase
          livePaxosStubs := live o servers server },
        entered servers server request) := by
  obtain ⟨phase, hfold⟩ := foldl_ping (Invocation.enter server (servers server) request)
    (servers server).paxosStubsMap.getPaxosStubs
    fun a => (exchange_ping o a (entered servers server request a)).1
  refine ⟨phase, ?_⟩
  have hservers : visited (o.exchange .ping) (servers server).paxosStubsMap.getPaxosStubs
      (entered servers server request) = entered servers server request := by
    funext a
    unfold visited
    split
    · exact (exchange_ping o a _).2.2
    · rfl
  have hlive : ((servers server).paxosStubsMap.getPaxosStubs.filter fun a =>
      (o.exchange .ping a (entered servers server request a)).1.isSome) =
      live o servers server := by
    refine List.filter_congr fun a _ => ?_
    rw [Bool.eq_iff_iff, (exchange_ping o a _).2.1, decide_eq_true_iff]
  show visit (o.exchange .ping) Invocation.receive (servers server).paxosStubsMap.getPaxosStubs
    (Invocation.enter server (servers server) request) (entered servers server request) = _
  rw [visit_eq (servers server).paxosStubsMap.getPaxosStubs_nodup, hservers, hfold, hlive]
  rfl

/-- The invocation after the prepare loop. -/
theorem forEach_prepare (inv : Invocation) (hid : inv.acceptedId = 0)
    (htype : inv.acceptedType = .notSet) (hvalue : inv.acceptedValue = "")
    (hzero : inv.numOfPromised = 0) : ∃ phase promisedBy,
    forEach o (prepareMsg servers server request) (live o servers server) inv
        (entered servers server request) =
      ({ inv with
          phase := phase
          numOfPromised := (promises o servers server request).length
          promisedBy := promisedBy
          acceptedId := (bestPromise o servers server request).acceptedId
          acceptedType := (bestPromise o servers server request).type
          acceptedValue := (bestPromise o servers server request).value },
        prepared o servers server request) := by
  obtain ⟨phase, promisedBy, hfold⟩ := foldl_prepare inv (live o servers server)
    (fun a => exchange_prepare o a (entered servers server request a) _) {} hid htype hvalue
  refine ⟨phase, promisedBy, ?_⟩
  rw [forEach, visit_eq (live_nodup o servers server), prepareMsg, hfold, hzero, Nat.zero_add]
  rfl

/-- The invocation after the propose loop. -/
theorem forEach_propose (inv : Invocation) (hzero : inv.numOfAccepted = 0) :
    ∃ phase acceptedBy,
    forEach o (proposeMsg o servers server request) (live o servers server) inv
        (prepared o servers server request) =
      ({ inv with
          phase := phase
          numOfAccepted := (acceptors o servers server request).length
          acceptance :=
            if acceptors o servers server request = [] then inv.acceptance
            else (informReq o servers server request).acceptance
          acceptedBy := acceptedBy },
        proposed o servers server request) := by
  obtain ⟨phase, acceptedBy, hfold⟩ := foldl_propose inv (live o servers server)
    fun a => exchange_propose o a (prepared o servers server request a)
      { key := request.key
        round := round servers server request
        proposeId := 1
        type := (proposal o servers server request).type
        value := (proposal o servers server request).value }
  refine ⟨phase, acceptedBy, ?_⟩
  rw [forEach, visit_eq (live_nodup o servers server), proposeMsg, hfold, hzero, Nat.zero_add]
  rfl

/-- `RunPaxos` alone returns in one of four ways. -/
theorem runPaxos_cases :
    SoloCases o servers server request (runPaxos o servers server request) := by
  obtain ⟨phase, hping⟩ := forEach_ping o servers server request
  set inv := { Invocation.enter server (servers server) request with
    phase := phase
    livePaxosStubs := live o servers server } with hinv
  obtain ⟨phase', promisedBy, hprepare⟩ :=
    forEach_prepare o servers server request inv rfl rfl rfl rfl
  set inv' := { inv with
    phase := phase'
    numOfPromised := (promises o servers server request).length
    promisedBy := promisedBy
    acceptedId := (bestPromise o servers server request).acceptedId
    acceptedType := (bestPromise o servers server request).type
    acceptedValue := (bestPromise o servers server request).value } with hinv'
  obtain ⟨phase'', acceptedBy, hpropose⟩ := forEach_propose o servers server request inv' rfl
  set inv'' := { inv' with
    phase := phase''
    numOfAccepted := (acceptors o servers server request).length
    acceptance :=
      if acceptors o servers server request = [] then inv'.acceptance
      else (informReq o servers server request).acceptance
    acceptedBy := acceptedBy } with hinv''
  have hinformMsg : acceptors o servers server request ≠ [] →
      Message.inform inv''.informReq = .inform (informReq o servers server request) := by
    intro hne
    simp only [hinv'', Invocation.informReq, if_neg hne]
    rfl
  replace hprepare : forEach o (.prepare inv.prepareReq) inv.livePaxosStubs inv
      (entered servers server request) = (inv', prepared o servers server request) := hprepare
  replace hpropose : forEach o (.propose inv'.proposeReq) inv'.livePaxosStubs inv'
      (prepared o servers server request) = (inv'', proposed o servers server request) :=
    hpropose
  unfold runPaxos
  simp only [hping]
  by_cases hlive : inv.livePaxosStubs = []
  · rw [if_pos hlive]
    exact .noneLive _ hlive
  · rw [if_neg hlive, hprepare]
    by_cases hcount : inv'.numOfPromised ≤ inv'.numOfAcceptors / 2
    · simp only [if_pos hcount]
      exact .failedQuorum _ hlive hcount
    · simp only [if_neg hcount, hpropose]
      by_cases hcount' : inv''.numOfAccepted ≤ inv''.numOfAcceptors / 2
      · rw [if_pos hcount']
        exact .failedConsensus _ (not_le.mp hcount) hcount'
      · have hlt : (live o servers server).length / 2 <
            (acceptors o servers server request).length := not_le.mp hcount'
        have hne : acceptors o servers server request ≠ [] :=
          List.ne_nil_of_length_pos (by omega)
        rw [if_neg hcount', hinformMsg hne, forEach]
        rw [visit_eq (live_nodup o servers server)]
        exact .done (not_le.mp hcount) hlt

end Cases

/-- An invocation that returned OK has informed. -/
theorem runPaxos_eq_of_ok {o : Outcomes} {servers : Servers} {server : Addr}
    {request : Request} (hok : (runPaxos o servers server request).1.ok = true) :
    runPaxos o servers server request = (Status.OK, informed o servers server request) := by
  have hcases := runPaxos_cases o servers server request
  generalize runPaxos o servers server request = result at hok hcases
  cases hcases with
  | noneLive message hlive => cases hok
  | failedQuorum message hlive hcount => cases hok
  | failedConsensus message hquorum hcount => cases hok
  | done hquorum hconsensus => rfl

/-! ## What a server makes of its calls -/

section Related

variable {o : Outcomes} {servers : Servers} {server : Addr} {request : Request}

/-- A call that was not lost is handled by its receiver. -/
theorem exchange_handled (o : Outcomes) (msg : Message) (a : Addr)
    (s : MultiPaxosServiceImpl) : (o.exchange msg a s).2 = s ∨
      Handled s (o.exchange msg a s).2 msg (s.handle {} (o.randomFail msg a) msg).1 := by
  have hhandled := s.handle_handled (o.randomFail msg a) {} msg
  cases h : o.fate msg a with
  | delivered =>
    refine Or.inr ?_
    simpa only [Outcomes.exchange, h] using hhandled
  | lost => exact Or.inl (by simp only [Outcomes.exchange, h])
  | replyLost =>
    refine Or.inr ?_
    simpa only [Outcomes.exchange, h] using hhandled

/-- An answer that arrives is the answer of the handler. -/
theorem answer_of_exchange {msg : Message} {a : Addr} {s : MultiPaxosServiceImpl}
    {reply : Reply} (h : (o.exchange msg a s).1 = some reply) :
    reply = (s.handle {} (o.randomFail msg a) msg).1 := by
  cases hfate : o.fate msg a <;> simp only [Outcomes.exchange, hfate, reduceCtorEq] at h
  exact (Option.some.inj h).symm

/-- The messages that the invocation may send. -/
def messages (o : Outcomes) (servers : Servers) (server : Addr) (request : Request) :
    List Message :=
  [.ping, prepareMsg servers server request, proposeMsg o servers server request,
    .inform (informReq o servers server request)]

/-- What every handled call of the invocation brings about, and what chains,
is brought about by the invocation. -/
theorem runPaxos_related {R : MultiPaxosServiceImpl → MultiPaxosServiceImpl → Prop}
    (htrans : ∀ {s s' s''}, R s s' → R s' s'' → R s s'')
    (hhandled : ∀ msg ∈ messages o servers server request, ∀ s s' reply,
      Handled s s' msg reply → R s s') (a : Addr) :
    R (servers a) ((runPaxos o servers server request).2 a) := by
  have hrefl : ∀ s, R s s := fun s =>
    hhandled .ping (by simp [messages]) s s _ (Unchanged.refl s)
  have hvisited : ∀ msg ∈ messages o servers server request, ∀ (s : Servers) stubs,
      R (s a) (visited (o.exchange msg) stubs s a) := by
    intro msg hmsg s stubs
    have hcases : visited (o.exchange msg) stubs s a = s a ∨
        (a ∈ stubs ∧ visited (o.exchange msg) stubs s a = (o.exchange msg a (s a)).2) :=
      visited_cases
    rcases hcases with heq | ⟨_, heq⟩
    · rw [heq]
      exact hrefl _
    · rw [heq]
      rcases exchange_handled o msg a (s a) with hsame | h
      · rw [hsame]
        exact hrefl _
      · exact hhandled msg hmsg _ _ _ h
  have hentered : R (servers a) (entered servers server request a) := by
    unfold entered
    by_cases ha : a = server
    · subst ha
      rw [Function.update_self]
      exact hhandled .ping (by simp [messages]) _ _ _ (Unchanged.getLatestRound _ _)
    · rw [Function.update_of_ne ha]
      exact hrefl _
  have hprepared := htrans hentered (hvisited (prepareMsg servers server request)
    (by simp [messages]) (entered servers server request) (live o servers server))
  have hproposed := htrans hprepared (hvisited (proposeMsg o servers server request)
    (by simp [messages]) (prepared o servers server request) (live o servers server))
  have hinformed := htrans hproposed (hvisited (.inform (informReq o servers server request))
    (by simp [messages]) (proposed o servers server request) (live o servers server))
  generalize hresult : runPaxos o servers server request = result
  have hcases := runPaxos_cases o servers server request
  rw [hresult] at hcases
  cases hcases with
  | noneLive message hlive => exact hentered
  | failedQuorum message hlive hcount => exact hprepared
  | failedConsensus message hquorum hcount => exact hproposed
  | done hquorum hconsensus => exact hinformed

/-- An invocation does not call a replica that does not answer its `Ping`. -/
theorem runPaxos_eq_entered {a : Addr} (hlive : a ∉ live o servers server) :
    (runPaxos o servers server request).2 a = entered servers server request a := by
  have hprepared : prepared o servers server request a = entered servers server request a :=
    visited_of_notMem hlive
  have hproposed : proposed o servers server request a = entered servers server request a :=
    (visited_of_notMem hlive).trans hprepared
  have hinformed : informed o servers server request a = entered servers server request a :=
    (visited_of_notMem hlive).trans hproposed
  have hcases := runPaxos_cases o servers server request
  generalize runPaxos o servers server request = result at hcases
  cases hcases with
  | noneLive message hlive' => rfl
  | failedQuorum message hlive' hcount => exact hprepared
  | failedConsensus message hquorum hcount => exact hproposed
  | done hquorum hconsensus => exact hinformed

/-- An invocation leaves another replica alone that does not answer its `Ping`. -/
theorem runPaxos_of_notMem_live {a : Addr} (hne : a ≠ server)
    (hlive : a ∉ live o servers server) :
    (runPaxos o servers server request).2 a = servers a :=
  (runPaxos_eq_entered hlive).trans (Function.update_of_ne hne ..)

/-- Nothing about `key` differs, nor what the server is configured with. -/
structure SameAt (key : String) (s s' : MultiPaxosServiceImpl) : Prop where
  address : s'.myPaxosAddress = s.myPaxosAddress
  stubs : s'.paxosStubsMap.stubs = s.paxosStubsMap.stubs
  rounds : ∀ r, r ∈ s'.kvDb.rounds key ↔ r ∈ s.kvDb.rounds key
  log : ∀ r, s'.kvDb.paxosLog key r = s.kvDb.paxosLog key r
  value : s'.kvDb.getValue key = s.kvDb.getValue key

theorem SameAt.refl (key : String) (s : MultiPaxosServiceImpl) : SameAt key s s :=
  ⟨rfl, rfl, fun _ => Iff.rfl, fun _ => rfl, rfl⟩

theorem SameAt.trans {key : String} {s s' s'' : MultiPaxosServiceImpl} (h : SameAt key s s')
    (h' : SameAt key s' s'') : SameAt key s s'' where
  address := h'.address.trans h.address
  stubs := h'.stubs.trans h.stubs
  rounds r := (h'.rounds r).trans (h.rounds r)
  log r := (h'.log r).trans (h.log r)
  value := h'.value.trans h.value

/-- A call leaves the other keys alone. -/
theorem sameAt_of_handled {s s' : MultiPaxosServiceImpl} {msg : Message} {reply : Reply}
    (h : Handled s s' msg reply) {key : String} (hslot : ∀ slot ∈ msg.slot, slot.1 ≠ key) :
    SameAt key s s' := by
  obtain ⟨hrounds, hlog, hvalue⟩ := h.frame hslot
  exact ⟨h.address, h.stubs, fun r => by rw [hrounds], hlog, hvalue⟩

/-- An invocation leaves the other keys alone. -/
theorem runPaxos_sameAt {key : String} (hkey : request.key ≠ key) (a : Addr) :
    SameAt key (servers a) ((runPaxos o servers server request).2 a) := by
  refine runPaxos_related (R := SameAt key) SameAt.trans ?_ a
  intro msg hmsg s s' reply h
  refine sameAt_of_handled h ?_
  simp only [messages, List.mem_cons, List.not_mem_nil, or_false] at hmsg
  rcases hmsg with rfl | rfl | rfl | rfl <;> intro slot hslot <;> cases hslot <;> exact hkey

end Related

/-! ## A round that nobody has logged -/

section Fresh

variable {reach : Addr → Bool} {randomFail : Message → Addr → Bool} {servers : Servers}
  {server : Addr} {request : Request}

/-- No live replica has logged a round of the key above the one that the
server has. -/
def FreshRound (reach : Addr → Bool) (servers : Servers) (server : Addr) (request : Request) :
    Prop :=
  ∀ a ∈ (servers server).paxosStubsMap.getPaxosStubs, reach a = true →
    ∀ r ∈ (servers a).kvDb.rounds request.key, r < round servers server request

theorem mem_live_within {a : Addr} :
    a ∈ live (.within reach randomFail) servers server ↔
      a ∈ (servers server).paxosStubsMap.getPaxosStubs ∧ reach a = true := by
  rw [live, List.mem_filter, decide_eq_true_iff, Outcomes.within]
  cases h : reach a <;> simp [h]

theorem exchange_within {a : Addr} (ha : reach a = true) (msg : Message)
    (s : MultiPaxosServiceImpl) :
    (Outcomes.within reach randomFail).exchange msg a s =
      (some (s.handle {} (randomFail msg a) msg).1, (s.handle {} (randomFail msg a) msg).2) := by
  simp [Outcomes.exchange, Outcomes.within, ha]

/-- A live replica after one of the loops. -/
theorem visited_within {a : Addr}
    (ha : a ∈ live (.within reach randomFail) servers server) (msg : Message) (s : Servers) :
    Handled (s a)
      (visited ((Outcomes.within reach randomFail).exchange msg)
        (live (.within reach randomFail) servers server) s a) msg
      ((s a).handle {} (randomFail msg a) msg).1 ∧
    msg.logged ((s a).handle {} (randomFail msg a) msg).1 = msg.slot := by
  refine ⟨?_, (s a).handle_logged (randomFail msg a) msg⟩
  rw [visited_of_mem ha, exchange_within (mem_live_within.mp ha).2]
  exact (s a).handle_handled (randomFail msg a) {} msg

theorem entered_unchanged (servers : Servers) (server : Addr) (request : Request) (a : Addr) :
    Unchanged (servers a) (entered servers server request a) :=
  .enter servers server request.key a

/-- Among promises that carry nothing the first one wins. -/
theorem foldl_higher_of_le {best : PromiseResponse} {ps : List PromiseResponse}
    (h : ∀ p ∈ ps, p.acceptedId ≤ best.acceptedId) : ps.foldl higher best = best := by
  induction ps with
  | nil => rfl
  | cons p rest ih =>
    rw [List.foldl_cons, higher, if_neg (not_lt.mpr (h p List.mem_cons_self))]
    exact ih fun p hp => h p (List.mem_cons_of_mem _ hp)

theorem promise_handle (s : MultiPaxosServiceImpl) (randomFail : Bool)
    (req : PrepareRequest) : (s.handle {} randomFail (.prepare req)).1.promise =
      if (s.prepare {} req randomFail).1.1.ok then some (s.prepare {} req randomFail).1.2
      else none := rfl

/-- A promise carries the acceptance that the replica has logged. -/
theorem carries_of_promiseOf {o : Outcomes} {a : Addr} {response : PromiseResponse}
    (h : promiseOf o servers server request a = some response) :
    (0 < ((servers a).kvDb.paxosLog request.key (round servers server request)).acceptedId ∧
      response.acceptedId =
        ((servers a).kvDb.paxosLog request.key (round servers server request)).acceptedId ∧
      response.operation =
        ((servers a).kvDb.paxosLog request.key (round servers server request)).operation) ∨
    (¬ 0 < ((servers a).kvDb.paxosLog request.key (round servers server request)).acceptedId ∧
      response.acceptedId = 0) := by
  have hlog : ((entered servers server request a).kvDb.paxosLog request.key
      (round servers server request)) =
      (servers a).kvDb.paxosLog request.key (round servers server request) :=
    (entered_unchanged servers server request a).log request.key _
  obtain ⟨reply, hreply, hpromise⟩ := Option.bind_eq_some_iff.mp h
  have hcarries := (entered servers server request a).prepare_carries
    (o.randomFail (prepareMsg servers server request) a)
    { key := request.key, round := round servers server request, proposeId := 1 }
  rw [answer_of_exchange hreply, prepareMsg, promise_handle] at hpromise
  split at hpromise
  · rename_i hok
    cases hpromise
    rw [← hlog]
    exact hcarries hok
  · cases hpromise

/-- In a fresh round the invocation proposes its own operation. -/
theorem proposal_of_fresh (hfresh : FreshRound reach servers server request) :
    proposal (.within reach randomFail) servers server request = request.setProposeValue := by
  have hzero : ∀ p ∈ promises (.within reach randomFail) servers server request,
      p.acceptedId ≤ ({} : PromiseResponse).acceptedId := by
    intro p hp
    obtain ⟨a, ha, hpromise⟩ := List.mem_filterMap.mp hp
    obtain ⟨hstub, hreach⟩ := mem_live_within.mp ha
    have hdefault := KeyValueDataBase.paxosLog_of_notMem
      fun hmem => lt_irrefl _ (hfresh a hstub hreach _ hmem)
    have hcarries := carries_of_promiseOf hpromise
    rw [hdefault] at hcarries
    rcases hcarries with ⟨hpos, _⟩ | ⟨_, hid⟩
    · exact absurd hpos (by decide)
    · exact le_of_eq hid
  rw [proposal, bestPromise, foldl_higher_of_le hzero, if_neg (by decide)]

/-- An invocation logs no other round of its key. -/
theorem mem_rounds_of_runPaxos {o : Outcomes} {a : Addr} {r : Int}
    (hr : r ∈ ((runPaxos o servers server request).2 a).kvDb.rounds request.key) :
    r ∈ (servers a).kvDb.rounds request.key ∨ r = round servers server request := by
  refine runPaxos_related (R := fun s s' => ∀ r ∈ s'.kvDb.rounds request.key,
    r ∈ s.kvDb.rounds request.key ∨ r = round servers server request) ?_ ?_ a r hr
  · intro s s' s'' h h' r hr
    rcases h' r hr with hr | rfl
    · exact h r hr
    · exact Or.inr rfl
  · intro msg hmsg s s' reply h r hr
    rcases (h.rounds _ _).mp hr with hlogged | hr
    · refine Or.inr ?_
      rw [Message.logged] at hlogged
      simp only [messages, List.mem_cons, List.not_mem_nil, or_false] at hmsg
      split at hlogged
      · cases hlogged
      · rcases hmsg with rfl | rfl | rfl | rfl <;> cases hlogged <;> rfl
    · exact Or.inl hr

/-- A live replica has logged the round when the invocation returns. -/
theorem round_mem_of_runPaxos {a : Addr}
    (ha : a ∈ live (.within reach randomFail) servers server) :
    round servers server request ∈
      ((runPaxos (.within reach randomFail) servers server request).2 a).kvDb.rounds
        request.key := by
  have hprepared : round servers server request ∈
      (prepared (.within reach randomFail) servers server request a).kvDb.rounds request.key := by
    obtain ⟨hhandled, hlogged⟩ := visited_within ha (prepareMsg servers server request)
      (entered servers server request)
    exact (hhandled.rounds _ _).mpr (Or.inl hlogged)
  have hproposed : round servers server request ∈
      (proposed (.within reach randomFail) servers server request a).kvDb.rounds request.key :=
    ((visited_within ha _ _).1.rounds _ _).mpr (Or.inr hprepared)
  have hinformed : round servers server request ∈
      (informed (.within reach randomFail) servers server request a).kvDb.rounds request.key :=
    ((visited_within ha _ _).1.rounds _ _).mpr (Or.inr hproposed)
  generalize hresult : runPaxos (.within reach randomFail) servers server request = result
  have hcases := runPaxos_cases (.within reach randomFail) servers server request
  rw [hresult] at hcases
  cases hcases with
  | noneLive message hlive =>
    rw [hlive] at ha
    cases ha
  | failedQuorum message hlive hcount => exact hprepared
  | failedConsensus message hquorum hcount => exact hproposed
  | done hquorum hconsensus => exact hinformed

/-- A live replica that has logged no higher round executes the proposal when
it is informed. -/
theorem informed_executes {a : Addr}
    (ha : a ∈ live (.within reach randomFail) servers server)
    (hlow : ∀ r ∈ (servers a).kvDb.rounds request.key, r ≤ round servers server request) :
    (Message.inform (informReq (.within reach randomFail) servers server request)).executed
        ((proposed (.within reach randomFail) servers server request a).handle {}
          (randomFail (.inform (informReq (.within reach randomFail) servers server request)) a)
          (.inform (informReq (.within reach randomFail) servers server request))).1 =
      some (request.key, proposal (.within reach randomFail) servers server request) := by
  have hprepared := (visited_within ha (prepareMsg servers server request)
    (entered servers server request)).1
  have hproposed := (visited_within ha
    (proposeMsg (.within reach randomFail) servers server request)
    (prepared (.within reach randomFail) servers server request)).1
  refine if_pos ((MultiPaxosServiceImpl.inform_ok_iff _ _).mpr ?_)
  rintro ⟨r, hr, hlt⟩
  rcases (hproposed.rounds _ _).mp hr with hslot | hr
  · rw [(visited_within ha _ _).2] at hslot
    cases hslot
    exact lt_irrefl _ hlt
  · rcases (hprepared.rounds _ _).mp hr with hslot | hr
    · rw [(visited_within ha _ _).2] at hslot
      cases hslot
      exact lt_irrefl _ hlt
    · rw [(entered_unchanged servers server request a).mem_rounds] at hr
      exact absurd hlt (not_lt.mpr (hlow r hr))

/-- In a fresh round, an invocation that returns OK has executed its own
operation at every live replica. -/
theorem value_of_runPaxos (hfresh : FreshRound reach servers server request) {a : Addr}
    (ha : a ∈ live (.within reach randomFail) servers server)
    (hok : (runPaxos (.within reach randomFail) servers server request).1.ok = true) :
    ((runPaxos (.within reach randomFail) servers server request).2 a).kvDb.getValue
        request.key =
      request.setProposeValue.effect ((servers a).kvDb.getValue request.key) := by
  obtain ⟨hstub, hreach⟩ := mem_live_within.mp ha
  have hvalue : (proposed (.within reach randomFail) servers server request a).kvDb.getValue
      request.key = (servers a).kvDb.getValue request.key :=
    ((visited_within ha _ _).1.value _).trans (((visited_within ha _ _).1.value _).trans
      ((entered_unchanged servers server request a).value _))
  have hexecuted := @informed_executes reach randomFail servers server request a ha
    fun r hr => (hfresh a hstub hreach r hr).le
  have heffect := (visited_within ha
    (.inform (informReq (.within reach randomFail) servers server request))
    (proposed (.within reach randomFail) servers server request)).1.value request.key
  rw [hexecuted] at heffect
  simp only [if_true] at heffect
  rw [hvalue, proposal_of_fresh hfresh] at heffect
  rw [runPaxos_eq_of_ok hok]
  exact heffect

end Fresh

end Solo

end PaxosKVStore
