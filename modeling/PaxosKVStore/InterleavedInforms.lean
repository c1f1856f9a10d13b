import PaxosKVStore.Lib.ActionSystem
import PaxosKVStore.Learning

/-!
# Handlers of `Inform` that run side by side

gRPC runs the handlers of a server on several threads.  The database locks
each of its operations, and an `Inform` makes three of them: it logs its
acceptance, compares its round with the latest one, and executes its
operation.  `Learner` is one server with any number of such handlers, each of
which stands before one of the three.  A handler whose call was given up makes
none of them and is not a handler here.

The comparison and the execution are two critical sections.  A handler of an
older round that passed the comparison can therefore write after a newer one:
`older_write_twoInforms` is such a run.  `never_goes_back` says that nothing
else goes wrong: as long as no handler writes while one of an older round of
its key stands between the comparison and the write, the entry never goes
back.  `goes_back` is the converse.
-/

namespace PaxosKVStore

/-- How far the handler of an `Inform` is. -/
inductive Stage where
  | entered
  | logged
  | checked
  | returned (status : Status)
  deriving DecidableEq, Repr

structure InformHandler where
  request : InformRequest
  stage : Stage := .entered
  deriving DecidableEq, Repr

/-- The next critical section of a handler, at its server. -/
def InformHandler.next (handler : InformHandler) (s : MultiPaxosServiceImpl) :
    Option (InformHandler × MultiPaxosServiceImpl) :=
  let key := handler.request.key
  let acceptance := handler.request.acceptance
  match handler.stage with
  | .entered =>
      some
        ({ handler with stage := .logged },
          { s with
            kvDb := s.kvDb.addPaxosLogAccepted key acceptance.round acceptance.proposeId
              acceptance.type acceptance.value })
  | .logged =>
      let (latestRound, kvDb) := s.kvDb.getLatestRound key
      -- Will NOT execute operation if it's not the latest round.
      if acceptance.round < latestRound then
        some
          ({ handler with
             stage := .returned
               { code := .aborted, message := "Aborted. Operation overwritten by others." } },
            { s with kvDb := kvDb })
      else some ({ handler with stage := .checked }, { s with kvDb := kvDb })
  | .checked =>
      some ({ handler with stage := .returned Status.OK }, s.execute key acceptance.operation)
  | .returned _ => none

/-- A handler that runs alone, for at most `n` critical sections. -/
def InformHandler.alone : Nat → InformHandler → MultiPaxosServiceImpl →
    InformHandler × MultiPaxosServiceImpl
  | 0, handler, s => (handler, s)
  | n + 1, handler, s =>
      match handler.next s with
      | none => (handler, s)
      | some (handler', s') => handler'.alone n s'

/-- The three critical sections in a row are the handler `inform`. -/
theorem InformHandler.alone_eq_inform (s : MultiPaxosServiceImpl) (request : InformRequest) :
    ({ request := request } : InformHandler).alone 3 s =
      ({ request := request, stage := .returned (s.inform {} request).1 },
        (s.inform {} request).2) := by
  by_cases hlate : request.acceptance.round <
      (s.kvDb.addPaxosLogAccepted request.key request.acceptance.round
        request.acceptance.proposeId request.acceptance.type
        request.acceptance.value).latestRound request.key
  · simp [alone, next, MultiPaxosServiceImpl.inform, KeyValueDataBase.getLatestRound, hlate]
  · simp [alone, next, MultiPaxosServiceImpl.inform, KeyValueDataBase.getLatestRound, hlate]

/-- A server with the handlers that it has started, and the requests that they
have executed, newest first. -/
structure Learner where
  server : MultiPaxosServiceImpl
  handlers : List InformHandler := []
  executed : List InformRequest := []

namespace Learner

/-- A request arrives, or a handler enters its next critical section. -/
inductive Action where
  | receive (request : InformRequest)
  | move (index : Nat)
  deriving DecidableEq, Repr

def step (σ : Learner) : Action → Option Learner
  | .receive request => some { σ with handlers := σ.handlers ++ [{ request := request }] }
  | .move index =>
      match σ.handlers[index]? with
      | none => none
      | some handler =>
          match handler.next σ.server with
          | none => none
          | some (handler', server') =>
              some
                { server := server'
                  handlers := σ.handlers.set index handler'
                  executed :=
                    if handler.stage = .checked then handler.request :: σ.executed
                    else σ.executed }

/-- Any server before it gets its first `Inform`. -/
structure IsInitial (σ : Learner) : Prop where
  handlers : σ.handlers = []
  executed : σ.executed = []

/-- All interleavings of the handlers. -/
def informs : ActionSystem Learner Action where
  isInitial := IsInitial
  step := step

/-- The requests that were executed for `key`, newest first. -/
def executedOn (σ : Learner) (key : String) : List InformRequest :=
  σ.executed.filter fun request => request.key = key

/-- The requests that were received. -/
def received (σ : Learner) : List InformRequest := σ.handlers.map InformHandler.request

/-- All handlers have returned. -/
def AllReturned (σ : Learner) : Prop :=
  ∀ handler ∈ σ.handlers, ∀ stage ∈ [Stage.entered, .logged, .checked], handler.stage ≠ stage

/-- The request is the newest that was received for its key, and nothing newer
is logged. -/
structure Newest (σ : Learner) (request : InformRequest) : Prop where
  received : request ∈ σ.received
  last : ∀ other ∈ σ.received, other.key = request.key →
    other.acceptance.round ≤ request.acceptance.round
  only : ∀ other ∈ σ.received, other.key = request.key →
    other.acceptance.round = request.acceptance.round →
    other.acceptance.operation = request.acceptance.operation
  logged : ¬ σ.server.kvDb.Supersedes request.key request.acceptance.round

/-- The rounds that are executed for `key` never decrease, and in the end the
entry is what the newest request wrote. -/
structure NeverGoesBack (σ : Learner) (key : String) : Prop where
  ordered : (σ.executedOn key).Pairwise fun newer older =>
    older.acceptance.round ≤ newer.acceptance.round
  settled : σ.AllReturned → ∀ request, request.key = key → request.Writes →
    σ.Newest request → σ.server.kvDb.getValue key = request.written

/-- A handler writes only when none of an older round of its key stands
between its comparison and its write. -/
def InOrder (σ : Learner) : Action → Prop
  | .receive _ => True
  | .move index => ∀ handler ∈ σ.handlers[index]?, handler.stage = .checked →
      ∀ other ∈ σ.handlers, other.stage = .checked → other.request.key = handler.request.key →
        handler.request.acceptance.round ≤ other.request.acceptance.round

instance (σ : Learner) : ∀ act, Decidable (σ.InOrder act)
  | .receive _ => isTrue trivial
  | .move _ => inferInstanceAs (Decidable (∀ handler ∈ _, _))

/-! ## The steps, case by case -/

inductive StepCases (σ : Learner) : Action → Learner → Prop where
  | receive (request : InformRequest) :
      StepCases σ (.receive request)
        { σ with handlers := σ.handlers ++ [{ request := request }] }
  | log {index : Nat} {handler : InformHandler} (hindex : σ.handlers[index]? = some handler)
      (hstage : handler.stage = .entered) :
      StepCases σ (.move index)
        { σ with
          server :=
            { σ.server with
              kvDb := σ.server.kvDb.addPaxosLogAccepted handler.request.key
                handler.request.acceptance.round handler.request.acceptance.proposeId
                handler.request.acceptance.type handler.request.acceptance.value }
          handlers := σ.handlers.set index { handler with stage := .logged } }
  | refuse {index : Nat} {handler : InformHandler} (status : Status)
      (hindex : σ.handlers[index]? = some handler) (hstage : handler.stage = .logged)
      (hlate : handler.request.acceptance.round <
        σ.server.kvDb.latestRound handler.request.key) :
      StepCases σ (.move index)
        { σ with
          server :=
            { σ.server with
              kvDb := σ.server.kvDb.touchKey handler.request.key }
          handlers := σ.handlers.set index { handler with stage := .returned status } }
  | check {index : Nat} {handler : InformHandler}
      (hindex : σ.handlers[index]? = some handler) (hstage : handler.stage = .logged)
      (hlatest : σ.server.kvDb.latestRound handler.request.key ≤
        handler.request.acceptance.round) :
      StepCases σ (.move index)
        { σ with
          server :=
            { σ.server with
              kvDb := σ.server.kvDb.touchKey handler.request.key }
          handlers := σ.handlers.set index { handler with stage := .checked } }
  | write {index : Nat} {handler : InformHandler}
      (hindex : σ.handlers[index]? = some handler) (hstage : handler.stage = .checked) :
      StepCases σ (.move index)
        { server := σ.server.execute handler.request.key handler.request.acceptance.operation
          handlers := σ.handlers.set index { handler with stage := .returned Status.OK }
          executed := handler.request :: σ.executed }

theorem step_cases {σ σ' : Learner} {act : Action} (h : σ.step act = some σ') :
    StepCases σ act σ' := by
  cases act with
  | receive request =>
    cases h
    exact .receive request
  | move index =>
    simp only [step] at h
    split at h
    · cases h
    · rename_i handler hindex
      obtain ⟨request, stage⟩ := handler
      cases stage with
      | entered =>
        cases h
        exact .log hindex rfl
      | logged =>
        by_cases hlate : request.acceptance.round < σ.server.kvDb.latestRound request.key
        · simp only [InformHandler.next, KeyValueDataBase.getLatestRound, hlate, if_true] at h
          cases h
          exact .refuse _ hindex rfl hlate
        · simp only [InformHandler.next, KeyValueDataBase.getLatestRound, hlate, if_false] at h
          cases h
          exact .check hindex rfl (not_lt.mp hlate)
      | checked =>
        cases h
        exact .write hindex rfl
      | returned status => cases h

/-! ## The invariant -/

/-- What every step in order keeps.  A handler that passed its comparison has
a round that no executed one of its key exceeds. -/
structure Settling (σ : Learner) : Prop where
  logged : ∀ handler ∈ σ.handlers, handler.stage ≠ .entered →
    handler.request.acceptance.round ∈ σ.server.kvDb.rounds handler.request.key
  executedLogged : ∀ request ∈ σ.executed,
    request.acceptance.round ∈ σ.server.kvDb.rounds request.key
  executedReceived : ∀ request ∈ σ.executed, request ∈ σ.received
  passed : ∀ handler ∈ σ.handlers, handler.stage = .checked → ∀ request ∈ σ.executed,
    request.key = handler.request.key →
      request.acceptance.round ≤ handler.request.acceptance.round
  ordered : σ.executed.Pairwise fun newer older => newer.key = older.key →
    older.acceptance.round ≤ newer.acceptance.round
  value : ∀ key, ∀ request ∈ (σ.executedOn key).head?, request.Writes →
    σ.server.kvDb.getValue key = request.written
  done : ∀ handler ∈ σ.handlers, ∀ status, handler.stage = .returned status →
    handler.request ∈ σ.executed ∨
      σ.server.kvDb.Supersedes handler.request.key handler.request.acceptance.round

theorem settling_init {σ : Learner} (h : σ.IsInitial) : Settling σ where
  logged handler hmem := by simp [h.handlers] at hmem
  executedLogged request hmem := by simp [h.executed] at hmem
  executedReceived request hmem := by simp [h.executed] at hmem
  passed handler hmem := by simp [h.handlers] at hmem
  ordered := by simp [h.executed]
  value key request hmem := by simp [executedOn, h.executed] at hmem
  done handler hmem := by simp [h.handlers] at hmem

section Steps

variable {σ : Learner} {index : Nat} {handler : InformHandler} {stage : Stage}

/-- A move changes no request. -/
theorem received_set (hindex : σ.handlers[index]? = some handler) :
    (σ.handlers.set index { handler with stage := stage }).map InformHandler.request =
      σ.received := by
  obtain ⟨hlt, hget⟩ := List.getElem?_eq_some_iff.mp hindex
  have hlength : index < (σ.handlers.map InformHandler.request).length := by
    rw [List.length_map]
    exact hlt
  have hsame : handler.request = (σ.handlers.map InformHandler.request)[index] := by
    rw [List.getElem_map, hget]
  rw [List.map_set, received]
  show (σ.handlers.map InformHandler.request).set index handler.request = _
  rw [hsame, List.set_getElem_self]

/-- A handler after a move is the one that moved, or was there before. -/
theorem mem_set {other : InformHandler}
    (h : other ∈ σ.handlers.set index { handler with stage := stage }) :
    other = { handler with stage := stage } ∨ other ∈ σ.handlers :=
  (List.mem_or_eq_of_mem_set h).symm

/-- Logging more rounds, under whatever locks, keeps the invariant, if the
handler that moved does not claim more than it has done. -/
theorem Settling.move (h : Settling σ) (hindex : σ.handlers[index]? = some handler)
    (stage : Stage) {db : KeyValueDataBase}
    (hrounds : ∀ key r, r ∈ σ.server.kvDb.rounds key → r ∈ db.rounds key)
    (hvalue : ∀ key, db.getValue key = σ.server.kvDb.getValue key)
    (hlogged : handler.request.acceptance.round ∈ db.rounds handler.request.key)
    (hpassed : stage = .checked → ∀ request ∈ σ.executed, request.key = handler.request.key →
      request.acceptance.round ≤ handler.request.acceptance.round)
    (hdone : ∀ status, stage = .returned status →
      db.Supersedes handler.request.key handler.request.acceptance.round) :
    Settling
      { σ with
        server := { σ.server with kvDb := db }
        handlers := σ.handlers.set index { handler with stage := stage } } where
  logged other hmem hstage := by
    rcases mem_set hmem with rfl | hmem
    · exact hlogged
    · exact hrounds _ _ (h.logged other hmem hstage)
  executedLogged request hmem := hrounds _ _ (h.executedLogged request hmem)
  executedReceived request hmem := by
    show request ∈ (σ.handlers.set index _).map InformHandler.request
    rw [received_set hindex]
    exact h.executedReceived request hmem
  passed other hmem hstage := by
    rcases mem_set hmem with rfl | hmem
    · exact hpassed hstage
    · exact h.passed other hmem hstage
  ordered := h.ordered
  value key request hmem hwrites := (hvalue key).trans (h.value key request hmem hwrites)
  done other hmem status hstage := by
    rcases mem_set hmem with rfl | hmem
    · exact Or.inr (hdone status hstage)
    · rcases h.done other hmem status hstage with hexecuted | ⟨r, hr, hlt⟩
      · exact Or.inl hexecuted
      · exact Or.inr ⟨r, hrounds _ _ hr, hlt⟩

/-- Executing the operation of a handler that passed its comparison, when no
older one has. -/
theorem Settling.write (h : Settling σ) (hindex : σ.handlers[index]? = some handler)
    (hstage : handler.stage = .checked)
    (horder : ∀ other ∈ σ.handlers, other.stage = .checked →
      other.request.key = handler.request.key →
      handler.request.acceptance.round ≤ other.request.acceptance.round) :
    Settling
      { server := σ.server.execute handler.request.key handler.request.acceptance.operation
        handlers := σ.handlers.set index { handler with stage := .returned Status.OK }
        executed := handler.request :: σ.executed } := by
  have hmem := List.mem_of_getElem? hindex
  have hrounds : ∀ key, (σ.server.execute handler.request.key
      handler.request.acceptance.operation).kvDb.rounds key = σ.server.kvDb.rounds key :=
    fun key => MultiPaxosServiceImpl.rounds_execute ..
  have hlogged := h.logged handler hmem (by simp [hstage])
  constructor
  · intro other hother hentered
    show _ ∈ (MultiPaxosServiceImpl.execute ..).kvDb.rounds _
    rw [hrounds]
    rcases mem_set hother with rfl | hother
    · exact hlogged
    · exact h.logged other hother hentered
  · intro request hrequest
    show _ ∈ (MultiPaxosServiceImpl.execute ..).kvDb.rounds _
    rw [hrounds]
    rcases List.mem_cons.mp hrequest with rfl | hrequest
    · exact hlogged
    · exact h.executedLogged request hrequest
  · intro request hrequest
    show request ∈ (σ.handlers.set index _).map InformHandler.request
    rw [received_set hindex]
    rcases List.mem_cons.mp hrequest with rfl | hrequest
    · exact List.mem_map.mpr ⟨handler, hmem, rfl⟩
    · exact h.executedReceived request hrequest
  · -- the step is in order: no handler that stands before its write is older
    intro other hother hchecked request hrequest hkey
    rcases mem_set hother with rfl | hother
    · cases hchecked
    · rcases List.mem_cons.mp hrequest with rfl | hrequest
      · exact horder other hother hchecked hkey.symm
      · exact h.passed other hother hchecked request hrequest hkey
  · refine List.pairwise_cons.mpr ⟨fun older holder hkey => ?_, h.ordered⟩
    exact h.passed handler hmem hstage older holder hkey.symm
  · intro key request hhead hwrites
    show (MultiPaxosServiceImpl.execute ..).kvDb.getValue key = _
    rw [MultiPaxosServiceImpl.getValue_execute]
    simp only [executedOn, List.filter_cons, decide_eq_true_eq] at hhead
    by_cases hkey : handler.request.key = key
    · rw [if_pos hkey, List.head?_cons, Option.mem_some_iff] at hhead
      subst hhead
      rw [if_pos hkey.symm]
      exact hwrites.effect _
    · rw [if_neg hkey] at hhead
      rw [if_neg (Ne.symm hkey)]
      exact h.value key request hhead hwrites
  · intro other hother status hreturned
    rcases mem_set hother with rfl | hother
    · exact Or.inl List.mem_cons_self
    · rcases h.done other hother status hreturned with hexecuted | ⟨r, hr, hlt⟩
      · exact Or.inl (List.mem_cons_of_mem _ hexecuted)
      · refine Or.inr ⟨r, ?_, hlt⟩
        rw [hrounds]
        exact hr

end Steps

/-- Every step in order keeps the invariant. -/
theorem settling_step {σ σ' : Learner} {act : Action} (h : Settling σ) (horder : σ.InOrder act)
    (hstep : StepCases σ act σ') : Settling σ' := by
  cases hstep with
  | receive request =>
    have hmem : ∀ other ∈ σ.handlers ++ [({ request := request } : InformHandler)],
        other.stage ≠ .entered → other ∈ σ.handlers := by
      intro other hother hstage
      rcases List.mem_append.mp hother with hother | hother
      · exact hother
      · rw [List.mem_singleton] at hother
        subst hother
        exact absurd rfl hstage
    refine ⟨fun other hother hstage => h.logged other (hmem other hother hstage) hstage,
      h.executedLogged, fun m hm => ?_,
      fun other hother hstage => h.passed other (hmem other hother (by simp [hstage])) hstage,
      h.ordered, h.value, fun other hother status hstage =>
        h.done other (hmem other hother (by simp [hstage])) status hstage⟩
    rw [received, List.map_append]
    exact List.mem_append_left _ (h.executedReceived m hm)
  | @log index handler hindex hstage =>
    refine h.move hindex .logged ?_ (fun key => rfl) ?_ (fun hchecked => ?_)
      fun status hreturned => ?_
    · intro key r hr
      rw [KeyValueDataBase.addPaxosLogAccepted, KeyValueDataBase.mem_rounds_updateLog]
      exact Or.inr hr
    · rw [KeyValueDataBase.addPaxosLogAccepted, KeyValueDataBase.mem_rounds_updateLog]
      exact Or.inl ⟨rfl, rfl⟩
    · cases hchecked
    · cases hreturned
  | @refuse index handler status hindex hstage hlate =>
    have hlogged := h.logged handler (List.mem_of_getElem? hindex) (by simp [hstage])
    refine h.move hindex (.returned status) ?_ (fun key => rfl) ?_
      (fun hchecked => ?_) fun status' hreturned => ?_
    · intro key r hr
      rw [KeyValueDataBase.rounds_touchKey]
      exact hr
    · rw [KeyValueDataBase.rounds_touchKey]
      exact hlogged
    · cases hchecked
    · obtain ⟨r, hr, hlt⟩ := (KeyValueDataBase.lt_latestRound_iff hlogged).mp hlate
      refine ⟨r, ?_, hlt⟩
      rw [KeyValueDataBase.rounds_touchKey]
      exact hr
  | @check index handler hindex hstage hlatest =>
    have hlogged := h.logged handler (List.mem_of_getElem? hindex) (by simp [hstage])
    refine h.move hindex .checked ?_ (fun key => rfl) ?_ (fun _ => ?_)
      fun status hreturned => ?_
    · intro key r hr
      rw [KeyValueDataBase.rounds_touchKey]
      exact hr
    · rw [KeyValueDataBase.rounds_touchKey]
      exact hlogged
    · -- what was executed is logged, and the comparison covers all that is logged
      intro request hrequest hkey
      have hround := h.executedLogged request hrequest
      rw [hkey] at hround
      have hle := KeyValueDataBase.le_latestRound hround
      omega
    · cases hreturned
  | @write index handler hindex hstage =>
    exact h.write hindex hstage (horder handler hindex hstage)

/-- An invariant that settles the entry once all handlers have returned. -/
theorem Settling.neverGoesBack {σ : Learner} (h : Settling σ) (key : String) :
    σ.NeverGoesBack key := by
  have hordered : (σ.executedOn key).Pairwise fun newer older =>
      older.acceptance.round ≤ newer.acceptance.round := by
    rw [executedOn, List.pairwise_filter]
    refine h.ordered.imp fun {newer older} hle hnewer holder => hle ?_
    simp only [decide_eq_true_eq] at hnewer holder
    rw [hnewer, holder]
  refine ⟨hordered, fun hreturned request hkey hwrites hnewest => ?_⟩
  subst hkey
  -- the newest request was executed, because nothing newer is logged
  obtain ⟨handler, hhandler, heq⟩ := List.mem_map.mp hnewest.received
  have hexecuted : request ∈ σ.executedOn request.key := by
    refine List.mem_filter.mpr ⟨?_, by simp⟩
    have hstages := hreturned handler hhandler
    cases hstage : handler.stage with
    | returned status =>
      rw [← heq]
      refine (h.done handler hhandler status hstage).resolve_right ?_
      rw [heq]
      exact hnewest.logged
    | entered => exact absurd hstage (hstages _ (by simp))
    | logged => exact absurd hstage (hstages _ (by simp))
    | checked => exact absurd hstage (hstages _ (by simp))
  -- so the last execution for the key is of its round
  cases hall : σ.executedOn request.key with
  | nil =>
    rw [hall] at hexecuted
    cases hexecuted
  | cons last rest =>
    have hlast : last ∈ σ.executedOn request.key := by
      rw [hall]
      exact List.mem_cons_self
    obtain ⟨hlastExecuted, hlastKey⟩ := List.mem_filter.mp hlast
    rw [decide_eq_true_eq] at hlastKey
    have hreceived := h.executedReceived last hlastExecuted
    have hle := hnewest.last last hreceived hlastKey
    have hge : request.acceptance.round ≤ last.acceptance.round := by
      rw [hall] at hexecuted hordered
      rcases List.mem_cons.mp hexecuted with rfl | hrest
      · omega
      · exact (List.pairwise_cons.mp hordered).1 request hrest
    have hop := hnewest.only last hreceived hlastKey (by omega)
    have hlastWrites : last.Writes := by
      have htype : last.acceptance.type = request.acceptance.type := congrArg Operation.type hop
      rw [InformRequest.Writes, htype]
      exact hwrites
    have hvalue := h.value request.key last (by rw [hall]; rfl) hlastWrites
    rw [hvalue, InformRequest.written, hop, InformRequest.written]

/-- In every run in which no handler writes while one of an older round of its
key stands between its comparison and its write, no entry goes back. -/
theorem never_goes_back {σ : Learner} (h : informs.Reachable InOrder σ) (key : String) :
    σ.NeverGoesBack key := by
  refine Settling.neverGoesBack (ActionSystem.Reachable.invariant ?_ ?_ h) key
  · intro σ hinit
    exact settling_init hinit
  · intro σ act σ' _ horder hstep hsettling
    exact settling_step hsettling horder (step_cases hstep)

/-- A server without replicas, which is all that a learner needs. -/
def bareServer : MultiPaxosServiceImpl :=
  { myPaxosAddress := "a", paxosStubsMap := { stubs := .empty } }

/-- The result of an evaluated run is reachable. -/
theorem exists_reachable_bareServer {C : Learner → Action → Prop}
    [∀ σ act, Decidable (C σ act)] {acts : List Action} {P : Learner → Prop}
    (h : ∃ σ ∈ informs.execWhere C { server := bareServer } acts, P σ) :
    ∃ σ, informs.Reachable C σ ∧ P σ :=
  ActionSystem.exists_reachable_of_execWhere (show informs.isInitial _ from ⟨rfl, rfl⟩) h

/-- The requests of two rounds. -/
def setX : InformRequest := ⟨"k", 1, 1, .set, "x"⟩

def setY : InformRequest := ⟨"k", 2, 1, .set, "y"⟩

/-- The older request is executed before the newer one compares. -/
theorem never_goes_back_twoInforms :
    ∃ σ : Learner, σ.executed = [setY, setX] ∧ σ.AllReturned ∧ σ.NeverGoesBack "k" := by
  have hrun : ∃ σ ∈ informs.execWhere InOrder { server := bareServer }
      [.receive setX, .receive setY, .move 0, .move 0, .move 1, .move 0, .move 1, .move 1],
      σ.executed = [setY, setX] ∧
        ∀ handler ∈ σ.handlers, ∀ stage ∈ [Stage.entered, .logged, .checked],
          handler.stage ≠ stage := by
    decide +kernel
  obtain ⟨σ, hreach, hexecuted, hreturned⟩ :=
    exists_reachable_bareServer hrun
  exact ⟨σ, hexecuted, hreturned, never_goes_back hreach "k"⟩

/-- The handler of the older request compares first and writes last. -/
def olderLast : List Action :=
  [.receive setX, .receive setY, .move 0, .move 0, .move 1, .move 1, .move 1, .move 0]

/-- The older request is executed after the newer one, and its value stays. -/
theorem older_write_twoInforms :
    ∃ σ, informs.Reachable (fun _ _ => True) σ ∧ σ.received = [setX, setY] ∧ σ.AllReturned ∧
      σ.executed = [setX, setY] ∧ σ.server.kvDb.getValue "k" = some "x" ∧
        ¬ σ.NeverGoesBack "k" := by
  have hrun : ∃ σ ∈ informs.execWhere (fun _ _ => True) { server := bareServer } olderLast,
      σ.received = [setX, setY] ∧
        (∀ handler ∈ σ.handlers, ∀ stage ∈ [Stage.entered, .logged, .checked],
          handler.stage ≠ stage) ∧
        σ.executed = [setX, setY] ∧ σ.server.kvDb.getValue "k" = some "x" ∧
        ¬ σ.server.kvDb.Supersedes "k" 2 := by
    decide +kernel
  obtain ⟨σ, hreach, hreceived, hreturned, hexecuted, hvalue, hlogged⟩ :=
    exists_reachable_bareServer hrun
  refine ⟨σ, hreach, hreceived, hreturned, hexecuted, hvalue, fun hback => ?_⟩
  have hnewest : σ.Newest setY := by
    refine ⟨?_, ?_, ?_, hlogged⟩
    · rw [hreceived]
      decide
    · rw [hreceived]
      decide
    · rw [hreceived]
      decide
  have hsettled := hback.settled hreturned setY rfl (Or.inl rfl) hnewest
  rw [hvalue] at hsettled
  exact absurd hsettled (by decide)

/-- Where a handler writes although one of an older round of its key stands
before its own write, that one writes next and the entry goes back. -/
theorem goes_back {σ : Learner} {i j : Nat} {newer older : InformHandler}
    (hi : σ.handlers[i]? = some newer) (hj : σ.handlers[j]? = some older)
    (hnewer : newer.stage = .checked) (holder : older.stage = .checked)
    (hkey : older.request.key = newer.request.key)
    (hlt : older.request.acceptance.round < newer.request.acceptance.round) :
    ∃ σ' σ'', σ.step (.move i) = some σ' ∧ σ'.step (.move j) = some σ'' ∧
      ¬ σ''.NeverGoesBack newer.request.key := by
  have hne : i ≠ j := by
    rintro rfl
    rw [hi] at hj
    cases hj
    omega
  have hj' : (σ.handlers.set i { newer with stage := .returned Status.OK })[j]? =
      some older := by
    rw [List.getElem?_set_ne hne, hj]
  refine ⟨_, _, by simp only [step, hi, InformHandler.next, hnewer, if_true]; rfl,
    by simp only [step, hj', InformHandler.next, holder, if_true]; rfl, fun hback => ?_⟩
  have hordered := hback.ordered
  simp only [executedOn, List.filter_cons, hkey, decide_true, if_true,
    List.pairwise_cons] at hordered
  have hle := hordered.1 newer.request List.mem_cons_self
  omega

end Learner

end PaxosKVStore
