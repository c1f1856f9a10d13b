import PaxosKVStore.Provenance

/-!
# The databases are what the history says

Every handled call is an event of the history, so the history determines what
a database holds: the logged rounds are the rounds of the handled calls, and
an entry is the replay of the `Inform` requests that were executed for its
key.  Their rounds never decrease.  This holds under any behaviour of the
network.

`Effect` is the step seen from the servers: one call is handled at one
server, or nothing that a later call could read has changed.
-/

namespace PaxosKVStore

/-! ## Reading events -/

/-- The event is a call that was handled. -/
def Event.IsHandled : Event → Prop
  | .handled .. => True
  | _ => False

/-- The event makes `addr` log `round` under `key`. -/
def Event.Logs (addr : Addr) (key : String) (round : Int) : Event → Prop
  | .handled _ receiver msg reply _ =>
      receiver = addr ∧ msg.logged reply = some (key, round)
  | _ => False

/-- The `Inform` that the event executes at `addr` for `key`, with its
invocation. -/
def Event.learned (addr : Addr) (key : String) : Event → Option (Nat × InformRequest)
  | .handled run receiver (.inform request) reply _ =>
      if receiver = addr ∧ request.key = key ∧ reply.status.ok = true then some (run, request)
      else none
  | _ => none

instance (addr : Addr) (key : String) (round : Int) (e : Event) :
    Decidable (e.Logs addr key round) :=
  match e with
  | .handled _ receiver msg reply _ =>
      inferInstanceAs (Decidable (receiver = addr ∧ msg.logged reply = some (key, round)))
  | .refused .. => isFalse id
  | .sent .. => isFalse id
  | .returned .. => isFalse id

theorem Event.not_logs_of_not_handled {e : Event} (h : ¬ e.IsHandled) (addr : Addr)
    (key : String) (round : Int) : ¬ e.Logs addr key round := by
  cases e <;> simp_all [Event.IsHandled, Event.Logs]

theorem Event.learned_of_not_handled {e : Event} (h : ¬ e.IsHandled) (addr : Addr)
    (key : String) : e.learned addr key = none := by
  cases e <;> simp_all [Event.IsHandled, Event.learned]

/-- An event that is learned is a handled `Inform` that was answered OK. -/
theorem Event.handled_of_learned {addr : Addr} {key : String} {e : Event} {run : Nat}
    {request : InformRequest} (h : e.learned addr key = some (run, request)) :
    ∃ reply changed, e = .handled run addr (.inform request) reply changed ∧
      request.key = key ∧ reply.status.ok = true := by
  cases e with
  | handled run' receiver msg reply changed =>
    cases msg with
    | inform request' =>
      simp only [Event.learned] at h
      split at h
      · rename_i hcond
        cases h
        exact ⟨reply, changed, by rw [hcond.1], hcond.2.1, hcond.2.2⟩
      · cases h
    | _ => cases h
  | _ => cases h

/-- What the executed requests, newest first, make of an entry. -/
def replayValue (learned : List (Nat × InformRequest)) : Option String :=
  learned.foldr (fun entry before => entry.2.acceptance.operation.effect before) none

/-- Nothing that a call could read has changed, as after a `Ping`. -/
def Unchanged (s s' : MultiPaxosServiceImpl) : Prop :=
  Handled s s' .ping (.ping Status.OK)

theorem Unchanged.refl (s : MultiPaxosServiceImpl) : Unchanged s s :=
  MultiPaxosServiceImpl.handled_self s rfl rfl rfl

theorem Unchanged.mem_rounds {s s' : MultiPaxosServiceImpl} (h : Unchanged s s')
    (key : String) (r : Int) : r ∈ s'.kvDb.rounds key ↔ r ∈ s.kvDb.rounds key := by
  simpa [Message.logged, Message.slot] using h.rounds key r

/-- Reading the latest round changes nothing that a call could read. -/
theorem Unchanged.getLatestRound (s : MultiPaxosServiceImpl) (key : String) :
    Unchanged s { s with kvDb := (s.kvDb.getLatestRound key).2 } := by
  refine ⟨rfl, rfl, ?_, ?_, fun _ => rfl, rfl⟩
  · intro key' r
    simp [KeyValueDataBase.getLatestRound, Message.logged, Message.slot]
  · intro key' r
    simp [KeyValueDataBase.getLatestRound, Message.recorded]

/-- One server reads the latest round, and the others do nothing. -/
theorem Unchanged.enter (servers : Addr → MultiPaxosServiceImpl) (server : Addr) (key : String)
    (a : Addr) : Unchanged (servers a)
      (Function.update servers server
        { servers server with kvDb := ((servers server).kvDb.getLatestRound key).2 } a) := by
  by_cases ha : a = server
  · subst ha
    rw [Function.update_self]
    exact .getLatestRound _ _
  · rw [Function.update_of_ne ha]
    exact .refl _

namespace System

/-- The requests executed at `addr` for `key`, newest first. -/
def learned (σ : System) (addr : Addr) (key : String) : List (Nat × InformRequest) :=
  σ.history.filterMap (Event.learned addr key)

/-! ## A step seen from the servers -/

inductive Effect (σ σ' : System) : Prop where
  | quiet (new : List Event) (hhistory : σ'.history = new ++ σ.history)
      (hnew : ∀ e ∈ new, ¬ e.IsHandled)
      (hservers : ∀ addr, Unchanged (σ.servers addr) (σ'.servers addr))
  | handled (run : Nat) (receiver : Addr) (msg : Message) (context : ServerContext)
      (randomFail : Bool) (new : List Event)
      (hhistory : σ'.history =
        .handled run receiver msg (σ.answer receiver msg context randomFail)
          (σ.dataChanged receiver msg context randomFail) :: (new ++ σ.history))
      (hnew : ∀ e ∈ new, ¬ e.IsHandled)
      (hhandled : Handled (σ.servers receiver) (σ'.servers receiver) msg
        (σ.answer receiver msg context randomFail))
      (hother : ∀ addr, addr ≠ receiver → σ'.servers addr = σ.servers addr)

theorem noteReturn_history (σ : System) (run : Nat) (inv : Invocation) :
    ∃ new, (σ.noteReturn run inv).history = new ++ σ.history ∧ ∀ e ∈ new, ¬ e.IsHandled := by
  unfold noteReturn
  split
  · exact ⟨[_], rfl, by simp [Event.IsHandled]⟩
  · exact ⟨[], rfl, by simp⟩

theorem step_effect {σ σ' : System} {act : Action} (h : StepCases σ act σ') :
    Effect σ σ' := by
  cases h with
  | refuse hrefusal =>
    exact .quiet [_] rfl (by simp [Event.IsHandled]) fun addr => .refl _
  | @enter server request context hrefusal =>
    exact .quiet [] rfl (by simp) (.enter σ.servers server request.key)
  | @call run inv receiver msg fate randomFail hrun hcall =>
    cases fate with
    | delivered =>
      exact .handled run receiver msg {} randomFail [.sent run receiver msg] rfl
        (by simp [Event.IsHandled]) (σ.call_handled run inv receiver msg randomFail)
        fun addr ha => σ.call_other run inv msg randomFail ha
    | lost =>
      exact .quiet [.sent run receiver msg] rfl (by simp [Event.IsHandled]) fun addr => .refl _
    | replyLost =>
      exact .quiet [.sent run receiver msg] rfl (by simp [Event.IsHandled]) fun addr => .refl _
  | @advance run inv inv' hrun hadvance =>
    obtain ⟨new, hhistory, hnew⟩ := noteReturn_history (σ.setRun run inv') run inv'
    refine .quiet new hhistory hnew fun addr => ?_
    rw [noteReturn_servers]
    exact .refl _
  | @arrive index run receiver msg context randomFail hindex =>
    exact .handled run receiver msg context randomFail [] rfl (by simp)
      (σ.deliver_handled run receiver msg context randomFail)
      fun addr ha => σ.deliver_other run msg context randomFail ha

/-- The history only grows. -/
theorem Effect.suffix {σ σ' : System} (h : Effect σ σ') :
    ∃ new, σ'.history = new ++ σ.history := by
  cases h with
  | quiet new hhistory hnew hservers => exact ⟨new, hhistory⟩
  | handled run receiver msg context randomFail new hhistory hnew hhandled hother =>
    exact ⟨_ :: new, hhistory⟩

/-- An event stays in the history. -/
theorem Effect.mem_history {σ σ' : System} (h : Effect σ σ') {e : Event}
    (he : e ∈ σ.history) : e ∈ σ'.history := by
  obtain ⟨new, hhistory⟩ := h.suffix
  rw [hhistory]
  exact List.mem_append_right new he

/-! ## The replay -/

/-- The databases agree with the history, and no replica executes a round
below one that it has executed. -/
structure Replays (σ : System) : Prop where
  rounds : ∀ addr key r, r ∈ (σ.db addr).rounds key ↔ ∃ e ∈ σ.history, e.Logs addr key r
  value : ∀ addr key, (σ.db addr).getValue key = replayValue (σ.learned addr key)
  ordered : ∀ addr key, (σ.learned addr key).Pairwise fun newer older =>
    older.2.acceptance.round ≤ newer.2.acceptance.round

theorem replays_init {σ : System} (h : σ.IsInitial) : Replays σ where
  rounds addr key r := by
    rw [System.db, h.kvDb addr, h.history]
    simp
  value addr key := by
    rw [System.db, h.kvDb addr, learned, h.history]
    simp [replayValue]
  ordered addr key := by
    rw [learned, h.history]
    exact .nil

/-- Events that are not handled calls teach nothing. -/
theorem filterMap_learned_quiet {new : List Event} (hnew : ∀ e ∈ new, ¬ e.IsHandled)
    (addr : Addr) (key : String) : new.filterMap (Event.learned addr key) = [] := by
  rw [List.filterMap_eq_nil_iff]
  intro e he
  exact Event.learned_of_not_handled (hnew e he) addr key

/-- Events that are not handled calls log nothing. -/
theorem exists_logs_quiet {new old : List Event} (hnew : ∀ e ∈ new, ¬ e.IsHandled)
    (addr : Addr) (key : String) (r : Int) :
    (∃ e ∈ new ++ old, e.Logs addr key r) ↔ ∃ e ∈ old, e.Logs addr key r := by
  constructor
  · rintro ⟨e, he, hlogs⟩
    rcases List.mem_append.mp he with he | he
    · exact absurd hlogs (Event.not_logs_of_not_handled (hnew e he) addr key r)
    · exact ⟨e, he, hlogs⟩
  · rintro ⟨e, he, hlogs⟩
    exact ⟨e, List.mem_append_right _ he, hlogs⟩

theorem learned_quiet {σ σ' : System} {new : List Event}
    (hhistory : σ'.history = new ++ σ.history) (hnew : ∀ e ∈ new, ¬ e.IsHandled)
    (addr : Addr) (key : String) : σ'.learned addr key = σ.learned addr key := by
  rw [learned, hhistory, List.filterMap_append, filterMap_learned_quiet hnew,
    List.nil_append, learned]

/-- A handled call adds what it teaches. -/
theorem learned_handled {σ σ' : System} {e : Event} {new : List Event}
    (hhistory : σ'.history = e :: (new ++ σ.history)) (hnew : ∀ e ∈ new, ¬ e.IsHandled)
    (addr : Addr) (key : String) :
    σ'.learned addr key = (e.learned addr key).toList ++ σ.learned addr key := by
  rw [learned, hhistory, List.filterMap_cons, List.filterMap_append,
    filterMap_learned_quiet hnew, List.nil_append, ← learned]
  cases e.learned addr key <;> rfl

/-- A call at another server teaches nothing. -/
theorem learned_of_ne {run : Nat} {receiver addr : Addr} (h : addr ≠ receiver) (key : String)
    (msg : Message) (reply : Reply) (changed : Bool) :
    (Event.handled run receiver msg reply changed).learned addr key = none := by
  cases msg <;> simp [Event.learned, Ne.symm h]

/-- The receiver of a call replays what the call teaches. -/
theorem replayValue_of_handled {s s' : MultiPaxosServiceImpl} {msg : Message} {reply : Reply}
    (h : Handled s s' msg reply) {key : String} {older : List (Nat × InformRequest)}
    (hold : s.kvDb.getValue key = replayValue older) (run : Nat) (addr : Addr)
    (changed : Bool) : s'.kvDb.getValue key = replayValue
      (((Event.handled run addr msg reply changed).learned addr key).toList ++ older) := by
  have hvalue := h.value key
  cases msg with
  | inform request =>
    simp only [Message.executed] at hvalue
    by_cases hok : reply.status.ok = true
    · by_cases hkey : key = request.key
      · rw [if_pos hok] at hvalue
        simp only [if_pos hkey] at hvalue
        rw [hvalue, hold]
        simp [Event.learned, hok, hkey, replayValue]
      · rw [if_pos hok] at hvalue
        simp only [if_neg hkey] at hvalue
        rw [hvalue, hold]
        simp [Event.learned, Ne.symm hkey]
    · rw [if_neg hok] at hvalue
      rw [hvalue, hold]
      simp [Event.learned, hok]
  | ping => exact hvalue.trans hold
  | prepare request => exact hvalue.trans hold
  | propose request => exact hvalue.trans hold

/-- An `Inform` that is executed is not below a logged round. -/
theorem not_supersedes_of_ok {s : MultiPaxosServiceImpl} {context : ServerContext}
    {randomFail : Bool} {request : InformRequest}
    (hok : (s.handle context randomFail (.inform request)).1.status.ok = true) :
    ¬ s.kvDb.Supersedes request.key request.acceptance.round := by
  obtain ⟨isCancelled⟩ := context
  cases isCancelled with
  | false => exact (s.inform_ok_iff request).mp hok
  | true => cases hok

theorem replays_step {σ σ' : System} (h : Replays σ) (heffect : Effect σ σ') :
    Replays σ' := by
  cases heffect with
  | quiet new hhistory hnew hservers =>
    refine ⟨?_, ?_, ?_⟩
    · intro addr key r
      rw [hhistory, exists_logs_quiet hnew, ← h.rounds addr key r]
      exact (hservers addr).mem_rounds key r
    · intro addr key
      rw [learned_quiet hhistory hnew, ← h.value addr key]
      exact (hservers addr).value key
    · intro addr key
      rw [learned_quiet hhistory hnew]
      exact h.ordered addr key
  | handled run receiver msg context randomFail new hhistory hnew hhandled hother =>
    refine ⟨?_, ?_, ?_⟩
    · intro addr key r
      rw [hhistory, List.exists_mem_cons_iff, exists_logs_quiet hnew, ← h.rounds addr key r]
      by_cases ha : addr = receiver
      · subst ha
        simp only [Event.Logs, true_and]
        exact hhandled.rounds key r
      · rw [System.db, hother addr ha]
        simp only [Event.Logs, Ne.symm ha, false_and, false_or]
        exact Iff.rfl
    · intro addr key
      rw [learned_handled hhistory hnew]
      by_cases ha : addr = receiver
      · subst ha
        exact replayValue_of_handled hhandled (h.value addr key) run addr _
      · rw [learned_of_ne ha, System.db, hother addr ha]
        exact h.value addr key
    · intro addr key
      rw [learned_handled hhistory hnew, List.pairwise_append]
      refine ⟨?_, h.ordered addr key, ?_⟩
      · cases (Event.learned addr key _) with
        | none => exact .nil
        | some entry => exact List.pairwise_singleton _ _
      · rintro ⟨i, request⟩ hnewest ⟨j, request'⟩ holder
        rw [Option.mem_toList] at hnewest
        obtain ⟨reply, changed, heq, rfl, hok⟩ := Event.handled_of_learned hnewest
        simp only [Event.handled.injEq] at heq
        obtain ⟨rfl, rfl, rfl, rfl, rfl⟩ := heq
        obtain ⟨e, he, hlearned⟩ := List.mem_filterMap.mp holder
        obtain ⟨reply', changed', rfl, hkey, hok'⟩ := Event.handled_of_learned hlearned
        -- the older request left its round in the log
        have hlogged : request'.acceptance.round ∈ (σ.db receiver).rounds request.key := by
          refine (h.rounds receiver request.key _).mpr ⟨_, he, rfl, ?_⟩
          rw [Message.logged, if_neg (fun hcode => ?_), Message.slot, hkey]
          rw [Status.ok, hcode] at hok'
          cases hok'
        by_contra hlt
        exact not_supersedes_of_ok hok ⟨_, hlogged, not_le.mp hlt⟩

theorem replays_of_reachable {setup : System → Prop} {C : System → Action → Prop}
    {σ : System} (h : (paxos setup).Reachable C σ) : Replays σ := by
  refine ActionSystem.Reachable.invariant ?_ ?_ h
  · intro σ hinit
    exact replays_init hinit.1
  · intro σ act σ' _ _ hstep hreplays
    exact replays_step hreplays (step_effect (step_cases hstep))

/-! ## Executions and changes -/

/-- Every executed request is the `Inform` of an invocation that reached its
`Propose` majority. -/
theorem Provenance.learned_from {σ : System} (hprov : Provenance σ) {addr : Addr}
    {key : String} {i : Nat} {request : InformRequest} (h : (i, request) ∈ σ.learned addr key) :
    ∃ inv, σ.runs[i]? = some inv ∧ inv.Committed ∧ inv.key = key ∧
      request.acceptance = inv.acceptanceOf := by
  obtain ⟨e, he, hlearned⟩ := List.mem_filterMap.mp h
  obtain ⟨reply, changed, rfl, rfl, _⟩ := Event.handled_of_learned hlearned
  obtain ⟨inv, hrun, hcommitted, rfl, hacceptance⟩ := hprov.handled_inform he
  exact ⟨inv, hrun, hcommitted, rfl, hacceptance⟩

/-- Only an executed operation changes a data map. -/
def ChangesExecuted (σ : System) : Prop :=
  ∀ (i : Nat) (a : Addr) (msg : Message) (reply : Reply),
    .handled i a msg reply true ∈ σ.history → msg.executed reply ≠ none

theorem changesExecuted_step {σ σ' : System} {act : Action} (h : ChangesExecuted σ)
    (hstep : StepCases σ act σ') : ChangesExecuted σ' := by
  -- a handler that executes nothing leaves the data map
  have hnew : ∀ receiver msg context randomFail,
      σ.dataChanged receiver msg context randomFail = true →
      msg.executed (σ.answer receiver msg context randomFail) ≠ none := by
    intro receiver msg context randomFail hchanged hnone
    have hhandled := MultiPaxosServiceImpl.handle_handled (σ.servers receiver) randomFail
      context msg
    have hsame : ((σ.servers receiver).handle context randomFail msg).2.kvDb.dataMap =
        (σ.servers receiver).kvDb.dataMap := by
      refine KeyValueDataBase.dataMap_ext fun key => ?_
      rw [answer] at hnone
      rw [hhandled.value key, hnone]
    simp [dataChanged, hsame] at hchanged
  intro i a msg reply hmem
  cases hstep with
  | refuse hrefusal => exact h i a msg reply (by simpa using hmem)
  | enter hrefusal => exact h i a msg reply hmem
  | call fate randomFail hrun hcall =>
    rcases (mem_call_history ..).mp hmem with ⟨_, heq⟩ | heq | hmem
    · simp only [Event.handled.injEq] at heq
      obtain ⟨rfl, rfl, rfl, rfl, hchanged⟩ := heq
      exact hnew _ _ _ _ hchanged.symm
    · cases heq
    · exact h i a msg reply hmem
  | advance hrun hadvance =>
    rcases (mem_noteReturn_history ..).mp hmem with ⟨_, _, heq⟩ | hmem
    · cases heq
    · exact h i a msg reply hmem
  | arrive context randomFail hindex =>
    rcases List.mem_cons.mp hmem with heq | hmem
    · simp only [Event.handled.injEq] at heq
      obtain ⟨rfl, rfl, rfl, rfl, hchanged⟩ := heq
      exact hnew _ _ _ _ hchanged.symm
    · exact h i a msg reply hmem

theorem changesExecuted_of_reachable {setup : System → Prop} {C : System → Action → Prop}
    {σ : System} (h : (paxos setup).Reachable C σ) : ChangesExecuted σ := by
  refine ActionSystem.Reachable.invariant ?_ ?_ h
  · intro σ hinit i a msg reply hmem
    simp [hinit.1.history] at hmem
  · intro σ act σ' _ _ hstep hchanges
    exact changesExecuted_step hchanges (step_cases hstep)

/-- The calls of a request that returned with an error changed no data map. -/
theorem unchanged_of_returned {σ : System} (hprov : Provenance σ) (hchanges : ChangesExecuted σ)
    {i : Nat} {request : Request} {status : Status}
    (hreturned : .returned i request status ∈ σ.history) (hno : status.ok = false) (a : Addr)
    (msg : Message) (reply : Reply) : .handled i a msg reply true ∉ σ.history := by
  intro hmem
  obtain ⟨inv, hrun, hrequest, hphase⟩ := hprov.returned i request status hreturned
  obtain ⟨inv', hrun', hsends⟩ := hprov.sent i a msg (hprov.handled i a msg reply true hmem)
  rw [hrun] at hrun'
  cases hrun'
  obtain ⟨executed, hexecuted⟩ := Option.ne_none_iff_exists'.mp (hchanges i a msg reply hmem)
  have hcommitted := (hsends.executed (hprov.wf i inv hrun) hexecuted).1
  exact Invocation.not_failed_of_committed hcommitted ⟨status, hphase, hno⟩

end System

end PaxosKVStore
