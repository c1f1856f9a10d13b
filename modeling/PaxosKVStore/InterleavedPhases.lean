import PaxosKVStore.Lib.ActionSystem
import PaxosKVStore.Lib.Linearizability
import PaxosKVStore.MultiPaxosService

/-!
# Handlers of the acceptor that run side by side

`Prepare` enters the database twice: it logs the round, and later reads the
log of that round and answers from it.  `Propose` reads the log, and writes it
in a second critical section when it accepts.  Other handlers run in between,
also on the same round.  The first critical section of an `Inform`, which logs
its acceptance, writes what these two read, and takes part here as a call of
its own; the other two are the subject of `InterleavedInforms`.  `GetPaxosLog`
holds its lock shared although `operator[]` may insert; here every operation
of the database is one critical section.

Everywhere else a handler is one step.  For `Prepare` and `Propose` nothing is
lost by that: by `linearizable_of_interleaved` every interleaving of them, with
logging sections of `Inform` handlers in between, has the answers of the same
calls one after the other, in an order that agrees with real time, and leaves
the same server behind.  This is not so for whole `Inform` handlers.  A
`Prepare` that has logged its round and not yet read it makes an `Inform` of a
lower round be refused, and may then still answer with what was accepted after
that.
-/

namespace PaxosKVStore

open Linearizability

/-- A call that reads or writes the log of one round. -/
inductive PhaseCall where
  | prepare (context : ServerContext) (request : PrepareRequest)
  | propose (context : ServerContext) (request : ProposeRequest)
  /-- The first critical section of an `Inform`. -/
  | log (request : InformRequest)
  deriving DecidableEq

inductive PhaseReply where
  | promise (status : Status) (response : PromiseResponse)
  | acceptance (status : Status) (response : AcceptResponse)
  | logged
  deriving DecidableEq, Repr

/-- The key and the round whose log the call is about. -/
def PhaseCall.slot : PhaseCall → String × Int
  | .prepare _ request => (request.key, request.round)
  | .propose _ request => (request.key, request.round)
  | .log request => (request.key, request.acceptance.round)

/-- A handler is before its first critical section, between its two, done
with them, or has returned. -/
inductive PhaseStage where
  | entered
  | between
  | finished (reply : PhaseReply)
  | returned (reply : PhaseReply)
  deriving DecidableEq, Repr

/-- A `Prepare` or `Propose` handler, or an `Inform` handler as far as its first
critical section. -/
structure PhaseHandler where
  call : PhaseCall
  stage : PhaseStage := .entered
  deriving DecidableEq

/-- The next critical section of a handler, at its server.  `RandomFail` is
drawn right after the log was read. -/
def PhaseHandler.next (handler : PhaseHandler) (s : MultiPaxosServiceImpl) (randomFail : Bool) :
    Option (PhaseStage × MultiPaxosServiceImpl) :=
  match handler.stage, handler.call with
  | .entered, .prepare context request =>
      if context.isCancelled then some (.finished (.promise abandoned {}), s)
      else some (.between, { s with kvDb := s.kvDb.addPaxosLog request.key request.round })
  | .between, .prepare _ request =>
      let response : PromiseResponse :=
        { round := request.round, proposeId := request.proposeId }
      let (paxosLog, kvDb) := s.kvDb.getPaxosLog request.key request.round
      let (status, response) :=
        if request.proposeId ≤ paxosLog.promisedId then
          ({ code := .aborted, message := "Aborted. Proposal ID is too low." }, response)
        else if request.key ≠ "coordinator" ∧ randomFail then
          ({ code := .aborted,
             message := rejection "Prepare" request.key request.round request.proposeId
               s.failRate }, response)
        else if 0 < paxosLog.acceptedId then
          (Status.OK,
            { response with
              acceptedId := paxosLog.acceptedId
              type := paxosLog.acceptedType
              value := paxosLog.acceptedValue })
        else (Status.OK, response)
      some (.finished (.promise status response), { s with kvDb := kvDb })
  | .entered, .propose context request =>
      if context.isCancelled then some (.finished (.acceptance abandoned {}), s)
      else
        let (paxosLog, kvDb) := s.kvDb.getPaxosLog request.key request.round
        let s := { s with kvDb := kvDb }
        if request.proposeId < paxosLog.promisedId then
          some
            (.finished (.acceptance
              { code := .aborted, message := "Aborted. Proposal ID is too low." } {}), s)
        else if request.key ≠ "coordinator" ∧ randomFail then
          some
            (.finished (.acceptance
              { code := .aborted,
                message := rejection "Propose" request.key request.round request.proposeId
                  s.failRate } {}), s)
        else some (.between, s)
  | .between, .propose _ request =>
      let response : AcceptResponse :=
        { round := request.round
          proposeId := request.proposeId
          type := request.type
          value := request.value }
      some
        (.finished (.acceptance Status.OK response),
          { s with
            kvDb := s.kvDb.addPaxosLogAccepted request.key request.round request.proposeId
              request.type request.value })
  | .entered, .log request =>
      let acceptance := request.acceptance
      some
        (.finished .logged,
          { s with
            kvDb := s.kvDb.addPaxosLogAccepted request.key acceptance.round acceptance.proposeId
              acceptance.type acceptance.value })
  | _, _ => none

/-! ## One handler after the other -/

/-- A server that handles one call at a time. -/
inductive PhaseCall.Allows (s : MultiPaxosServiceImpl) :
    PhaseCall → PhaseReply → MultiPaxosServiceImpl → Prop where
  | prepare (context : ServerContext) (request : PrepareRequest) (randomFail : Bool) :
      Allows s (.prepare context request)
        (.promise (s.prepare context request randomFail).1.1
          (s.prepare context request randomFail).1.2)
        (s.prepare context request randomFail).2
  | propose (context : ServerContext) (request : ProposeRequest) (randomFail : Bool) :
      Allows s (.propose context request)
        (.acceptance (s.propose context request randomFail).1.1
          (s.propose context request randomFail).1.2)
        (s.propose context request randomFail).2
  | log (request : InformRequest) :
      Allows s (.log request) .logged
        { s with
          kvDb := s.kvDb.addPaxosLogAccepted request.key request.acceptance.round
            request.acceptance.proposeId request.acceptance.type request.acceptance.value }

/-- The server `s₀` as a sequential object. -/
def atomicAcceptor (s₀ : MultiPaxosServiceImpl) :
    SequentialObject MultiPaxosServiceImpl PhaseCall PhaseReply where
  initial := s₀
  allows := PhaseCall.Allows

/-! ## All interleavings -/

/-- A server with the handlers that it has started.  A call is named by the
index of its handler. -/
structure Acceptor where
  server : MultiPaxosServiceImpl
  handlers : List PhaseHandler := []
  trace : List (HistoryEvent Nat PhaseCall PhaseReply) := []

namespace Acceptor

inductive Action where
  | receive (call : PhaseCall)
  | move (index : Nat) (randomFail : Bool)
  /-- The answer of a handler leaves the server. -/
  | answer (index : Nat)
  deriving DecidableEq

def step (σ : Acceptor) : Action → Option Acceptor
  | .receive call =>
      some
        { σ with
          handlers := σ.handlers ++ [{ call := call }]
          trace := .call σ.handlers.length call :: σ.trace }
  | .move index randomFail =>
      match σ.handlers[index]? with
      | none => none
      | some handler =>
          (handler.next σ.server randomFail).map fun (stage, server) =>
            { σ with
              server := server
              handlers := σ.handlers.set index { handler with stage := stage } }
  | .answer index =>
      match σ.handlers[index]? with
      | some { call := call, stage := .finished reply } =>
          some
            { σ with
              handlers := σ.handlers.set index { call := call, stage := .returned reply }
              trace := .ret index reply :: σ.trace }
      | _ => none

def phases (s₀ : MultiPaxosServiceImpl) : ActionSystem Acceptor Action where
  isInitial σ := σ = { server := s₀ }
  step := step

/-- No handler stands between its two critical sections. -/
def Quiet (σ : Acceptor) : Prop :=
  ∀ handler ∈ σ.handlers, handler.stage ≠ .between

instance (σ : Acceptor) : Decidable σ.Quiet :=
  inferInstanceAs (Decidable (∀ handler ∈ σ.handlers, handler.stage ≠ .between))

end Acceptor

/-! ## The steps, case by case -/

namespace PhaseCall

/-- What a critical section leaves of the server: nothing where the call was
given up, and the changed log otherwise. -/
def writes (call : PhaseCall) (change : Option (PaxosLog → PaxosLog))
    (s : MultiPaxosServiceImpl) : MultiPaxosServiceImpl :=
  match change with
  | none => s
  | some change => { s with kvDb := s.kvDb.updateLog call.slot.1 call.slot.2 change }

/-- The call has passed its first critical section at this server. -/
def Ready (s : MultiPaxosServiceImpl) : PhaseCall → Prop
  | .prepare context _ => context.isCancelled = false
  | .propose context request =>
      context.isCancelled = false ∧
        (s.kvDb.paxosLog request.key request.round).promisedId ≤ request.proposeId
  | .log _ => False

/-- The handlers cannot tell the two servers apart. -/
structure SameLogs (s t : MultiPaxosServiceImpl) : Prop where
  failRate : s.failRate = t.failRate
  log : ∀ key r, s.kvDb.paxosLog key r = t.kvDb.paxosLog key r

variable {s t : MultiPaxosServiceImpl} {call : PhaseCall}

theorem Allows.of_prepare {context : ServerContext} {request : PrepareRequest} {status : Status}
    {response : PromiseResponse} (randomFail : Bool)
    (h : s.prepare context request randomFail = ((status, response), t)) :
    Allows s (.prepare context request) (.promise status response) t := by
  have hallows := Allows.prepare (s := s) context request randomFail
  rw [h] at hallows
  exact hallows

theorem Allows.of_propose {context : ServerContext} {request : ProposeRequest} {status : Status}
    {response : AcceptResponse} (randomFail : Bool)
    (h : s.propose context request randomFail = ((status, response), t)) :
    Allows s (.propose context request) (.acceptance status response) t := by
  have hallows := Allows.propose (s := s) context request randomFail
  rw [h] at hallows
  exact hallows

end PhaseCall

open PhaseCall

/-- What a critical section does.  One that finishes its handler does what the
handler does in one step, at every server that looks the same. -/
inductive SectionCases (s : MultiPaxosServiceImpl) (call : PhaseCall) (stage : PhaseStage) :
    PhaseStage → MultiPaxosServiceImpl → Prop where
  | enter (hstage : stage = .entered) (hready : call.Ready s) :
      SectionCases s call stage .between (call.writes (some id) s)
  | finish (change : Option (PaxosLog → PaxosLog)) {reply : PhaseReply}
      (hstage : stage = .entered ∨ stage = .between ∧ change ≠ none)
      (hkeeps : ∀ f ∈ change, ∀ log, (f log).promisedId = log.promisedId)
      (hallows : ∀ t, SameLogs s t → call.Allows t reply (call.writes change t)) :
      SectionCases s call stage (.finished reply) (call.writes change s)

theorem PhaseHandler.next_cases {handler : PhaseHandler} {s s' : MultiPaxosServiceImpl}
    {randomFail : Bool} {stage : PhaseStage}
    (hready : handler.stage = .between → handler.call.Ready s)
    (h : handler.next s randomFail = some (stage, s')) :
    SectionCases s handler.call handler.stage stage s' := by
  obtain ⟨call, before⟩ := handler
  cases before with
  | entered =>
    cases call with
    | prepare context request =>
      simp only [next] at h
      split at h
      · rename_i hcancelled
        cases h
        refine .finish none (Or.inl rfl) (by simp) fun t _ => .of_prepare randomFail ?_
        simp [MultiPaxosServiceImpl.prepare, hcancelled, writes]
      · rename_i hcancelled
        cases h
        exact .enter rfl (by simpa [Ready] using hcancelled)
    | propose context request =>
      by_cases hcancelled : context.isCancelled = true
      · simp only [next, hcancelled, if_true] at h
        cases h
        refine .finish none (Or.inl rfl) (by simp) fun t _ =>
          .of_propose (t := writes _ none t) randomFail ?_
        simp [MultiPaxosServiceImpl.propose, hcancelled, writes]
      · by_cases hlow : request.proposeId <
            (s.kvDb.paxosLog request.key request.round).promisedId
        · simp only [next, hcancelled, KeyValueDataBase.getPaxosLog, hlow, if_true] at h
          cases h
          refine .finish (some id) (Or.inl rfl) (by simp) fun t hsame => .of_propose randomFail ?_
          rw [hsame.log] at hlow
          simp [MultiPaxosServiceImpl.propose, hcancelled, writes, slot,
            KeyValueDataBase.getPaxosLog, hlow]
        · by_cases hfail : request.key ≠ "coordinator" ∧ randomFail = true
          · simp only [next, hcancelled, KeyValueDataBase.getPaxosLog, hlow, if_false] at h
            rw [if_pos hfail] at h
            cases h
            refine .finish (some id) (Or.inl rfl) (by simp) fun t hsame =>
              .of_propose randomFail ?_
            rw [hsame.log] at hlow
            simp [MultiPaxosServiceImpl.propose, hcancelled, writes, slot,
              KeyValueDataBase.getPaxosLog, hlow, hfail, hsame.failRate]
          · simp only [next, hcancelled, KeyValueDataBase.getPaxosLog, hlow, if_false] at h
            rw [if_neg hfail] at h
            cases h
            exact .enter rfl ⟨by simpa using hcancelled, not_lt.mp hlow⟩
    | log request =>
      cases h
      exact .finish (some _) (Or.inl rfl) (by simp) fun t _ => .log request
  | between =>
    cases call with
    | prepare context request =>
      have hcancelled : context.isCancelled = false := hready rfl
      simp only [next, KeyValueDataBase.getPaxosLog, Option.some.injEq, Prod.mk.injEq] at h
      obtain ⟨rfl, rfl⟩ := h
      refine .finish (some id) (Or.inr ⟨rfl, by simp⟩) (by simp) fun t hsame =>
        .of_prepare randomFail ?_
      simp only [MultiPaxosServiceImpl.prepare, hcancelled, KeyValueDataBase.getPaxosLog,
        KeyValueDataBase.paxosLog_addPaxosLog, hsame.log, hsame.failRate]
      -- logging the round and reading its log change the log map as the reading alone does
      simp [KeyValueDataBase.addPaxosLog, KeyValueDataBase.updateLog_updateLog, writes, slot]
    | propose context request =>
      obtain ⟨hcancelled, hlow⟩ : context.isCancelled = false ∧ _ := hready rfl
      cases h
      -- the comparison that the handler passed, without a random failure
      refine .finish (some _) (Or.inr ⟨rfl, by simp⟩) (by simp) fun t hsame =>
        .of_propose false ?_
      rw [hsame.log, ← not_lt] at hlow
      simp [MultiPaxosServiceImpl.propose, hcancelled, KeyValueDataBase.getPaxosLog, hlow,
        KeyValueDataBase.addPaxosLogAccepted, writes, slot, KeyValueDataBase.updateLog_updateLog]
    | log request => cases h
  | finished reply => cases h
  | returned reply => cases h

/-! ## How far the real server is ahead -/

/-- The server `s` is `t` with the default logs of the rounds that `opened`
names in addition. -/
structure Ahead (opened : String → Int → Prop) (t s : MultiPaxosServiceImpl) : Prop where
  address : t.myPaxosAddress = s.myPaxosAddress
  stubs : t.paxosStubsMap = s.paxosStubsMap
  sameLogs : SameLogs s t
  value : ∀ key, t.kvDb.getValue key = s.kvDb.getValue key
  keys : ∀ key,
    key ∈ s.kvDb.getPaxosLogKeys ↔ key ∈ t.kvDb.getPaxosLogKeys ∨ ∃ r, opened key r
  rounds : ∀ key r, r ∈ s.kvDb.rounds key ↔ r ∈ t.kvDb.rounds key ∨ opened key r

namespace Ahead

variable {opened opened' : String → Int → Prop} {t s : MultiPaxosServiceImpl} {call : PhaseCall}

theorem refl (s : MultiPaxosServiceImpl) (hnone : ∀ key r, ¬ opened key r) : Ahead opened s s where
  address := rfl
  stubs := rfl
  sameLogs := ⟨rfl, fun _ _ => rfl⟩
  value _ := rfl
  keys key := by simp [hnone]
  rounds key r := by simp [hnone]

theorem congr (h : Ahead opened t s) (hopened : ∀ key r, opened' key r ↔ opened key r) :
    Ahead opened' t s := by
  have heq : opened' = opened := funext₂ fun key r => propext (hopened key r)
  rw [heq]
  exact h

/-- With nothing opened the servers are the same. -/
theorem eq (h : Ahead opened t s) (hnone : ∀ key r, ¬ opened key r) : t = s := by
  have hdb : t.kvDb = s.kvDb := by
    refine KeyValueDataBase.ext_of_reads h.value ?_ ?_ fun key r => (h.sameLogs.log key r).symm
    · ext key
      simp [h.keys, hnone]
    · intro key
      ext r
      simp [h.rounds, hnone]
  have hrate := h.sameLogs.failRate
  have haddress := h.address
  have hstubs := h.stubs
  obtain ⟨address, db, stubs, rate⟩ := t
  obtain ⟨address', db', stubs', rate'⟩ := s
  cases hdb
  cases hrate
  cases haddress
  cases hstubs
  rfl

/-- A handler opens its round. -/
theorem enter (h : Ahead opened t s)
    (hopened : ∀ key r, opened' key r ↔ opened key r ∨ (key, r) = call.slot) :
    Ahead opened' t (call.writes (some id) s) where
  address := h.address
  stubs := h.stubs
  sameLogs := by
    refine ⟨h.sameLogs.failRate, fun key r => ?_⟩
    rw [← h.sameLogs.log]
    exact KeyValueDataBase.paxosLog_addPaxosLog _ _ _ _ _
  value := h.value
  keys key := by
    simp only [writes, KeyValueDataBase.mem_getPaxosLogKeys_updateLog, h.keys, hopened,
      Prod.ext_iff]
    constructor
    · rintro (rfl | hkey | ⟨r, hr⟩)
      · exact Or.inr ⟨_, Or.inr ⟨rfl, rfl⟩⟩
      · exact Or.inl hkey
      · exact Or.inr ⟨r, Or.inl hr⟩
    · rintro (hkey | ⟨r, hr | hr⟩)
      · exact Or.inr (Or.inl hkey)
      · exact Or.inr (Or.inr ⟨r, hr⟩)
      · exact Or.inl hr.1
  rounds key r := by
    simp only [writes, KeyValueDataBase.mem_rounds_updateLog, h.rounds, hopened, Prod.ext_iff]
    tauto

/-- A handler that finishes changes both servers, and its round is no longer
opened by it. -/
theorem finish (h : Ahead opened t s) (change : PaxosLog → PaxosLog)
    (hold : ∀ key r, opened' key r → opened key r)
    (hnew : ∀ key r, opened key r → opened' key r ∨ (key, r) = call.slot) :
    Ahead opened' (call.writes (some change) t) (call.writes (some change) s) where
  address := h.address
  stubs := h.stubs
  sameLogs := by
    refine ⟨h.sameLogs.failRate, fun key r => ?_⟩
    simp only [writes, KeyValueDataBase.paxosLog_updateLog, h.sameLogs.log]
  value := h.value
  keys key := by
    simp only [writes, KeyValueDataBase.mem_getPaxosLogKeys_updateLog, h.keys]
    constructor
    · rintro (rfl | hkey | ⟨r, hr⟩)
      · exact Or.inl (Or.inl rfl)
      · exact Or.inl (Or.inr hkey)
      · rcases hnew key r hr with hr | hslot
        · exact Or.inr ⟨r, hr⟩
        · exact Or.inl (Or.inl (congrArg Prod.fst hslot))
    · rintro ((rfl | hkey) | ⟨r, hr⟩)
      · exact Or.inl rfl
      · exact Or.inr (Or.inl hkey)
      · exact Or.inr (Or.inr ⟨r, hold key r hr⟩)
  rounds key r := by
    have hnew := hnew key r
    have hold := hold key r
    simp only [writes, KeyValueDataBase.mem_rounds_updateLog, h.rounds, Prod.ext_iff] at hnew ⊢
    tauto

end Ahead

/-! ## The invariant -/

/-- A passed call stays passed, because no critical section changes what was
promised. -/
theorem PhaseCall.Ready.writes {s : MultiPaxosServiceImpl} {call other : PhaseCall}
    {change : Option (PaxosLog → PaxosLog)} (h : call.Ready s)
    (hkeeps : ∀ f ∈ change, ∀ log, (f log).promisedId = log.promisedId) :
    call.Ready (other.writes change s) := by
  have hpromised : ∀ key r, ((other.writes change s).kvDb.paxosLog key r).promisedId =
      (s.kvDb.paxosLog key r).promisedId := by
    intro key r
    cases change with
    | none => rfl
    | some f =>
      rw [PhaseCall.writes, KeyValueDataBase.paxosLog_updateLog]
      split_ifs with hslot
      · rw [hkeeps f rfl, hslot.1, hslot.2]
      · rfl
  cases call with
  | prepare context request => exact h
  | propose context request => exact ⟨h.1, (hpromised _ _).le.trans h.2⟩
  | log request => exact h

namespace Acceptor

/-- The rounds of the handlers that stand between their critical sections. -/
def Opened (σ : Acceptor) (key : String) (r : Int) : Prop :=
  ∃ (i : Nat) (handler : PhaseHandler), σ.handlers[i]? = some handler ∧
    handler.stage = .between ∧ (key, r) = handler.call.slot

/-- What the history and the points say about a handler. -/
structure HandlerTracked (σ : Acceptor) (entries : List (Entry Nat PhaseCall PhaseReply))
    (i : Nat) (handler : PhaseHandler) : Prop where
  called : .call i handler.call ∈ σ.trace
  ready : handler.stage = .between → handler.call.Ready σ.server
  pending : (∀ reply, handler.stage ≠ .returned reply) → ∀ reply, .ret i reply ∉ σ.trace
  undone : handler.stage = .entered ∨ handler.stage = .between → ∀ e ∈ entries, e.id ≠ i
  done : ∀ reply, handler.stage = .finished reply →
    { id := i, op := handler.call, res := reply } ∈ entries

/-- The point of a handler is its last critical section.  `t` is the server
that has handled the calls with a point. -/
structure Tracks (s₀ : MultiPaxosServiceImpl) (σ : Acceptor)
    (entries : List (Entry Nat PhaseCall PhaseReply)) (t : MultiPaxosServiceImpl) : Prop where
  points : Points (atomicAcceptor s₀) σ.trace entries t
  ahead : Ahead σ.Opened t σ.server
  handler : ∀ (i : Nat) (handler : PhaseHandler), σ.handlers[i]? = some handler →
    HandlerTracked σ entries i handler
  known : ∀ i call, .call i call ∈ σ.trace → i < σ.handlers.length

variable {s₀ : MultiPaxosServiceImpl} {σ : Acceptor} {t server : MultiPaxosServiceImpl}
  {entries : List (Entry Nat PhaseCall PhaseReply)} {index : Nat} {handler : PhaseHandler}
  {trace : List (HistoryEvent Nat PhaseCall PhaseReply)}

theorem tracks_init (s₀ : MultiPaxosServiceImpl) : Tracks s₀ { server := s₀ } [] s₀ where
  points := .nil
  ahead := by
    refine Ahead.refl s₀ fun key r hopened => ?_
    obtain ⟨i, handler, hi, _⟩ := hopened
    simp at hi
  handler i handler hi := by simp at hi
  known i call hcall := by simp at hcall

/-- A handler after a move is the one that moved, or was there before. -/
theorem handlers_set_cases (hindex : σ.handlers[index]? = some handler) {i : Nat}
    {moved other : PhaseHandler} (h : (σ.handlers.set index moved)[i]? = some other) :
    (i = index ∧ other = moved) ∨ (i ≠ index ∧ σ.handlers[i]? = some other) := by
  have hlt := (List.getElem?_eq_some_iff.mp hindex).1
  rw [List.getElem?_set] at h
  split_ifs at h with heq
  · exact Or.inl ⟨heq.symm, (Option.some.inj h).symm⟩
  · exact Or.inr ⟨Ne.symm heq, h⟩

theorem handlers_append_cases {handlers : List PhaseHandler} {i : Nat}
    {received other : PhaseHandler} (h : (handlers ++ [received])[i]? = some other) :
    handlers[i]? = some other ∨ (i = handlers.length ∧ other = received) := by
  rcases lt_or_ge i handlers.length with hlt | hge
  · rw [List.getElem?_append_left hlt] at h
    exact Or.inl h
  · rw [List.getElem?_append_right hge, List.getElem?_singleton] at h
    split_ifs at h with heq
    exact Or.inr ⟨by omega, (Option.some.inj h).symm⟩

/-- A handler that steps between its critical sections opens its round. -/
theorem opened_enter (hindex : σ.handlers[index]? = some handler)
    (hstage : handler.stage = .entered) (key : String) (r : Int) :
    Opened { server := server
             handlers := σ.handlers.set index { handler with stage := .between }
             trace := trace } key r ↔
      σ.Opened key r ∨ (key, r) = handler.call.slot := by
  have hlt := (List.getElem?_eq_some_iff.mp hindex).1
  constructor
  · rintro ⟨i, other, hi, hbetween, hslot⟩
    rcases handlers_set_cases hindex hi with ⟨_, rfl⟩ | ⟨_, hi⟩
    · exact Or.inr hslot
    · exact Or.inl ⟨i, other, hi, hbetween, hslot⟩
  · rintro (⟨i, other, hi, hbetween, hslot⟩ | hslot)
    · have hne : index ≠ i := by
        rintro rfl
        rw [hindex] at hi
        cases hi
        rw [hstage] at hbetween
        cases hbetween
      exact ⟨i, other, by rw [List.getElem?_set_ne hne, hi], hbetween, hslot⟩
    · exact ⟨index, _, List.getElem?_set_self hlt, rfl, hslot⟩

/-- Any other move opens nothing, -/
theorem opened_of_set (stage : PhaseStage) (hindex : σ.handlers[index]? = some handler)
    (hstage : stage ≠ .between) {key : String} {r : Int}
    (h : Opened { server := server
                  handlers := σ.handlers.set index { handler with stage := stage }
                  trace := trace } key r) : σ.Opened key r := by
  obtain ⟨i, other, hi, hbetween, hslot⟩ := h
  rcases handlers_set_cases hindex hi with ⟨_, rfl⟩ | ⟨_, hi⟩
  · exact absurd hbetween hstage
  · exact ⟨i, other, hi, hbetween, hslot⟩

/-- and closes at most the round of the handler that moves. -/
theorem opened_set (stage : PhaseStage) (hindex : σ.handlers[index]? = some handler)
    {key : String} {r : Int} (h : σ.Opened key r) :
    Opened { server := server
             handlers := σ.handlers.set index { handler with stage := stage }
             trace := trace } key r ∨
      handler.stage = .between ∧ (key, r) = handler.call.slot := by
  obtain ⟨i, other, hi, hbetween, hslot⟩ := h
  by_cases hne : index = i
  · subst hne
    rw [hindex] at hi
    cases hi
    exact Or.inr ⟨hbetween, hslot⟩
  · exact Or.inl ⟨i, other, by rw [List.getElem?_set_ne hne, hi], hbetween, hslot⟩

/-- What others do does not concern a handler. -/
theorem HandlerTracked.frame {σ' : Acceptor} {i : Nat} (h : HandlerTracked σ entries i handler)
    (entries' : List (Entry Nat PhaseCall PhaseReply))
    (events : List (HistoryEvent Nat PhaseCall PhaseReply)) (htrace : σ'.trace = events ++ σ.trace)
    (hevents : ∀ e ∈ events, e.id ≠ i) (hentries : ∀ e ∈ entries', e.id ≠ i)
    (hready : handler.call.Ready σ.server → handler.call.Ready σ'.server) :
    HandlerTracked σ' (entries' ++ entries) i handler where
  called := by
    rw [htrace]
    exact List.mem_append_right _ h.called
  ready hbetween := hready (h.ready hbetween)
  pending hactive reply hmem := by
    rw [htrace] at hmem
    rcases List.mem_append.mp hmem with hmem | hmem
    · exact hevents _ hmem rfl
    · exact h.pending hactive reply hmem
  undone hactive e he := by
    rcases List.mem_append.mp he with he | he
    · exact hentries e he
    · exact h.undone hactive e he
  done reply hfinished := List.mem_append_right _ (h.done reply hfinished)

/-- A call arrives. -/
theorem Tracks.receive (h : Tracks s₀ σ entries t) (call : PhaseCall) :
    Tracks s₀
      { σ with
        handlers := σ.handlers ++ [{ call := call }]
        trace := .call σ.handlers.length call :: σ.trace } entries t := by
  have hnew : ∀ call, .call σ.handlers.length call ∉ σ.trace := fun call hcall =>
    lt_irrefl _ (h.known _ call hcall)
  refine ⟨h.points.call call hnew, h.ahead.congr fun key r => ?_, fun i handler hi => ?_, ?_⟩
  · constructor
    · rintro ⟨i, handler, hi, hbetween, hslot⟩
      rcases handlers_append_cases hi with hi | ⟨_, rfl⟩
      · exact ⟨i, handler, hi, hbetween, hslot⟩
      · cases hbetween
    · rintro ⟨i, handler, hi, hbetween, hslot⟩
      have hlt := (List.getElem?_eq_some_iff.mp hi).1
      exact ⟨i, handler, by rw [List.getElem?_append_left hlt, hi], hbetween, hslot⟩
  · rcases handlers_append_cases hi with hi | ⟨rfl, rfl⟩
    · have hlt := (List.getElem?_eq_some_iff.mp hi).1
      refine (h.handler i handler hi).frame [] [_] rfl ?_ (by simp) fun hready => hready
      simpa [HistoryEvent.id] using hlt.ne'
    · refine ⟨List.mem_cons_self, fun heq => ?_, fun _ reply hmem => ?_, fun _ e he heq => ?_,
        fun reply heq => ?_⟩
      · cases heq
      · rcases List.mem_cons.mp hmem with heq | hmem
        · cases heq
        · obtain ⟨call, hcall⟩ := h.points.linearizes.called_of_ret hmem
          exact hnew call hcall
      · exact hnew e.op (heq ▸ h.points.linearizes.called e he)
      · cases heq
  · intro i other hcall
    rw [List.length_append]
    rcases List.mem_cons.mp hcall with heq | hcall
    · cases heq
      exact Nat.lt_succ_self _
    · exact (h.known i other hcall).trans (Nat.lt_succ_self _)

/-- A critical section that does not finish its handler. -/
theorem Tracks.enter (h : Tracks s₀ σ entries t) (hindex : σ.handlers[index]? = some handler)
    (hstage : handler.stage = .entered) (hready : handler.call.Ready σ.server) :
    Tracks s₀
      { σ with
        server := handler.call.writes (some id) σ.server
        handlers := σ.handlers.set index { handler with stage := .between } } entries t := by
  have hkeeps : ∀ f ∈ some (id : PaxosLog → PaxosLog), ∀ log,
      (f log).promisedId = log.promisedId := by simp
  have htracked := h.handler index handler hindex
  refine ⟨h.points, h.ahead.enter (opened_enter hindex hstage), fun i other hi => ?_, ?_⟩
  · rcases handlers_set_cases hindex hi with ⟨rfl, rfl⟩ | ⟨_, hi⟩
    · refine ⟨htracked.called, fun _ => hready.writes hkeeps, fun _ => ?_, fun _ => ?_,
        fun reply heq => ?_⟩
      · exact htracked.pending (by simp [hstage])
      · exact htracked.undone (Or.inl hstage)
      · cases heq
    · exact (h.handler i other hi).frame [] [] rfl (by simp) (by simp) fun hready =>
        hready.writes hkeeps
  · intro i call hcall
    rw [List.length_set]
    exact h.known i call hcall

/-- One that finishes it is the point of its call. -/
theorem Tracks.finish (h : Tracks s₀ σ entries t) (hindex : σ.handlers[index]? = some handler)
    {change : Option (PaxosLog → PaxosLog)} {reply : PhaseReply}
    (hstage : handler.stage = .entered ∨ handler.stage = .between ∧ change ≠ none)
    (hkeeps : ∀ f ∈ change, ∀ log, (f log).promisedId = log.promisedId)
    (hallows : ∀ t, SameLogs σ.server t →
      handler.call.Allows t reply (handler.call.writes change t)) :
    Tracks s₀
      { σ with
        server := handler.call.writes change σ.server
        handlers := σ.handlers.set index { handler with stage := .finished reply } }
      ({ id := index, op := handler.call, res := reply } :: entries)
      (handler.call.writes change t) := by
  have htracked := h.handler index handler hindex
  have hactive : handler.stage = .entered ∨ handler.stage = .between := hstage.imp_right And.left
  have hpending : ∀ reply, .ret index reply ∉ σ.trace := by
    refine htracked.pending fun reply heq => ?_
    rcases hactive with hstage | hstage <;> simp [hstage] at heq
  refine ⟨.point h.points htracked.called hpending (htracked.undone hactive)
    (hallows t h.ahead.sameLogs), ?_, fun i other hi => ?_, ?_⟩
  · cases change with
    | none =>
      have hentered : handler.stage ≠ .between := by
        rcases hstage with hstage | ⟨_, hnone⟩
        · simp [hstage]
        · exact absurd rfl hnone
      refine h.ahead.congr fun key r => ⟨opened_of_set _ hindex (by simp), fun hopened => ?_⟩
      exact (opened_set _ hindex hopened).resolve_right fun hbetween => hentered hbetween.1
    | some f =>
      refine h.ahead.finish f (fun key r => opened_of_set _ hindex (by simp)) ?_
      intro key r hopened
      exact (opened_set _ hindex hopened).imp_right And.right
  · rcases handlers_set_cases hindex hi with ⟨rfl, rfl⟩ | ⟨hne, hi⟩
    · refine ⟨htracked.called, fun heq => ?_, fun _ => hpending, by simp, fun reply' heq => ?_⟩
      · cases heq
      · cases heq
        exact List.mem_cons_self
    · refine (h.handler i other hi).frame [_] [] rfl (by simp) ?_ fun hready =>
        hready.writes hkeeps
      simpa using hne.symm
  · intro i call hcall
    rw [List.length_set]
    exact h.known i call hcall

/-- A finished handler answers. -/
theorem Tracks.answer (h : Tracks s₀ σ entries t) {call : PhaseCall} {reply : PhaseReply}
    (hindex : σ.handlers[index]? = some { call := call, stage := .finished reply }) :
    Tracks s₀
      { σ with
        handlers := σ.handlers.set index { call := call, stage := .returned reply }
        trace := .ret index reply :: σ.trace } entries t := by
  have htracked := h.handler index _ hindex
  refine ⟨.ret h.points (htracked.done reply rfl), ?_, fun i other hi => ?_, ?_⟩
  · refine h.ahead.congr fun key r => ⟨opened_of_set _ hindex (by simp),
      fun hopened => ?_⟩
    exact (opened_set _ hindex hopened).resolve_right (by simp)
  · rcases handlers_set_cases hindex hi with ⟨rfl, rfl⟩ | ⟨hne, hi⟩
    · refine ⟨List.mem_cons_of_mem _ htracked.called, fun heq => ?_,
        fun hactive => absurd rfl (hactive reply), by simp, fun reply' heq => ?_⟩
      · cases heq
      · cases heq
    · refine (h.handler i other hi).frame [] [_] rfl ?_ (by simp) fun hready => hready
      simpa [HistoryEvent.id] using hne.symm
  · intro i call hcall
    rw [List.length_set]
    rcases List.mem_cons.mp hcall with heq | hcall
    · cases heq
    · exact h.known i call hcall

/-! ## Every run -/

/-- Every step keeps the invariant, with a point more or not. -/
theorem tracks_step {σ' : Acceptor} {act : Action} (h : Tracks s₀ σ entries t)
    (hstep : σ.step act = some σ') : ∃ entries' t', Tracks s₀ σ' entries' t' := by
  cases act with
  | receive call =>
    cases hstep
    exact ⟨_, _, h.receive call⟩
  | move index randomFail =>
    simp only [step] at hstep
    split at hstep
    · cases hstep
    · rename_i handler hindex
      obtain ⟨⟨stage, server⟩, hnext, rfl⟩ := Option.map_eq_some_iff.mp hstep
      cases PhaseHandler.next_cases (h.handler index handler hindex).ready hnext with
      | enter hstage hready => exact ⟨_, _, h.enter hindex hstage hready⟩
      | finish change hstage hkeeps hallows =>
        exact ⟨_, _, h.finish hindex hstage hkeeps hallows⟩
  | answer index =>
    simp only [step] at hstep
    split at hstep
    · rename_i call reply hindex
      cases hstep
      exact ⟨_, _, h.answer hindex⟩
    · cases hstep

theorem tracks_of_reachable (h : (phases s₀).Reachable (fun _ _ => True) σ) :
    ∃ entries t, Tracks s₀ σ entries t := by
  induction h with
  | start hinit =>
    obtain rfl : _ = ({ server := s₀ } : Acceptor) := hinit
    exact ⟨[], s₀, tracks_init s₀⟩
  | next _ _ hstep ih =>
    obtain ⟨entries, t, htracks⟩ := ih
    exact tracks_step htracks hstep

/-- However the critical sections of the handlers interleave, their answers
are those of the handlers one after the other, in an order that agrees with
real time.  That order leaves behind the logs that the server has, and once no
handler stands between its critical sections, the server itself. -/
theorem linearizable_of_interleaved (h : (phases s₀).Reachable (fun _ _ => True) σ) :
    ∃ entries t, Linearizes (atomicAcceptor s₀) σ.trace entries ∧
      Runs (atomicAcceptor s₀) (entries.map Entry.performed) t ∧
      (∀ key r, t.kvDb.paxosLog key r = σ.server.kvDb.paxosLog key r) ∧
      (σ.Quiet → t = σ.server) := by
  obtain ⟨entries, t, htracks⟩ := tracks_of_reachable h
  refine ⟨entries, t, htracks.points.linearizes, htracks.points.runs, fun key r =>
    (htracks.ahead.sameLogs.log key r).symm, fun hquiet => htracks.ahead.eq ?_⟩
  rintro key r ⟨i, handler, hi, hbetween, _⟩
  exact hquiet handler (List.mem_of_getElem? hi) hbetween

/-- A server without replicas and without logs. -/
def emptyServer : MultiPaxosServiceImpl :=
  { myPaxosAddress := "a", paxosStubsMap := { stubs := .empty } }

/-- A `Propose` runs as a whole between the critical sections of a `Prepare`
of the same round. -/
def proposeBetween : List Action :=
  [.receive (.prepare {} { key := "k", round := 1, proposeId := 2 }),
    .receive (.propose {} { key := "k", round := 1, proposeId := 1, type := .set, value := "x" }),
    .move 0 false, .move 1 false, .move 1 false, .answer 1, .move 0 false, .answer 0]

set_option maxRecDepth 10000 in
/-- The `Prepare` was received first and comes second: it reports what was
accepted. -/
theorem linearizable_proposeBetween :
    ∃ (σ : Acceptor) (entries : List (Entry Nat PhaseCall PhaseReply)),
      σ.trace.head? =
        some (.ret 0 (.promise Status.OK
          { round := 1, proposeId := 2, acceptedId := 1, type := .set, value := "x" })) ∧
      Linearizes (atomicAcceptor emptyServer) σ.trace entries ∧
      Runs (atomicAcceptor emptyServer) (entries.map Entry.performed) σ.server := by
  have hrun : ∃ σ ∈ (phases emptyServer).execWhere (fun _ _ => True) { server := emptyServer }
      proposeBetween,
      σ.trace.head? =
        some (.ret 0 (.promise Status.OK
          { round := 1, proposeId := 2, acceptedId := 1, type := .set, value := "x" })) ∧
        σ.Quiet := by
    decide +kernel
  obtain ⟨σ, hreach, htrace, hquiet⟩ := ActionSystem.exists_reachable_of_execWhere rfl hrun
  obtain ⟨entries, t, hlinearizes, hruns, _, hserver⟩ := linearizable_of_interleaved hreach
  exact ⟨σ, entries, htrace, hlinearizes, hserver hquiet ▸ hruns⟩

end Acceptor

end PaxosKVStore
