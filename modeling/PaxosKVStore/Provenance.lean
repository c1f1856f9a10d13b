import PaxosKVStore.System

/-!
# Where rounds, acceptances and messages come from

The first invariant of the system, under any behaviour of the network: every
logged round is the round of an invocation on that key, every logged
acceptance is the proposal of an invocation for that key and round, and every
message that was sent is one that its invocation can still stand for.  No
promise is ever recorded, and every acceptance has id 1.

`Continues` is what a step does to the list of invocations: it grows at its
end, and the invocations that are there only evolve.  Every fact of the form
"there is an invocation that ..." is carried along it.
-/

namespace PaxosKVStore

namespace Invocation

/-! ## The messages an invocation stands for -/

/-- The messages that an invocation has sent or can send at its phase. -/
def Sends (inv : Invocation) : Message → Prop
  | .ping => True
  | .prepare request => request = inv.prepareReq
  | .propose request => inv.Proposed ∧ request = inv.proposeReq
  | .inform request => inv.Committed ∧ request = inv.informReq

theorem Calls.sends {inv : Invocation} {addr : Addr} {msg : Message}
    (h : inv.Calls addr msg) : inv.Sends msg := by
  cases h with
  | ping hphase => trivial
  | prepare hphase => rfl
  | propose hphase => exact ⟨by simp [Proposed, hphase], rfl⟩
  | inform hphase => exact ⟨by simp [Committed, hphase], rfl⟩

theorem Sends.evolves {inv inv' : Invocation} {msg : Message} (hevolves : inv.Evolves inv')
    (h : inv.Sends msg) : inv'.Sends msg := by
  cases msg with
  | ping => trivial
  | prepare request =>
    rw [Sends] at h ⊢
    rw [h, prepareReq, prepareReq, hevolves.key, hevolves.round, hevolves.proposeId]
  | propose request =>
    obtain ⟨hproposed, rfl⟩ := h
    obtain ⟨hproposed', _, hsame⟩ := hevolves.proposed hproposed
    refine ⟨hproposed', ?_⟩
    rw [proposeReq, proposeReq, hevolves.key, hevolves.round, hevolves.proposeId, hsame]
  | inform request =>
    obtain ⟨hcommitted, rfl⟩ := h
    obtain ⟨hcommitted', hsame⟩ := hevolves.committed hcommitted
    refine ⟨hcommitted', ?_⟩
    rw [informReq, informReq, hevolves.key, hsame]

section Effects

variable {inv : Invocation} {msg : Message} {reply : Reply}

/-- The round that a message logs is the one of its invocation. -/
theorem Sends.logged (hwf : inv.Wf) (h : inv.Sends msg) {key : String} {r : Int}
    (hlogged : msg.logged reply = some (key, r)) : key = inv.key ∧ r = inv.round := by
  rw [Message.logged] at hlogged
  split at hlogged
  · cases hlogged
  · cases msg with
    | ping => cases hlogged
    | prepare request =>
      cases h
      cases hlogged
      exact ⟨rfl, rfl⟩
    | propose request =>
      obtain ⟨_, rfl⟩ := h
      cases hlogged
      exact ⟨rfl, rfl⟩
    | inform request =>
      obtain ⟨hcommitted, rfl⟩ := h
      cases hlogged
      refine ⟨rfl, ?_⟩
      rw [informReq, (hwf.committed hcommitted).2.2, acceptanceOf]

/-- The acceptance that a message records is the proposal of its invocation. -/
theorem Sends.recorded (hwf : inv.Wf) (h : inv.Sends msg) {written : InformRequest}
    (hrecorded : msg.recorded reply = some written) :
    inv.Proposed ∧ written.key = inv.key ∧ written.acceptance = inv.acceptanceOf := by
  cases msg with
  | ping => cases hrecorded
  | prepare request => cases hrecorded
  | propose request =>
    obtain ⟨hproposed, rfl⟩ := h
    simp only [Message.recorded] at hrecorded
    split at hrecorded
    · cases hrecorded
      exact ⟨hproposed, rfl, rfl⟩
    · cases hrecorded
  | inform request =>
    obtain ⟨hcommitted, rfl⟩ := h
    simp only [Message.recorded] at hrecorded
    split at hrecorded
    · cases hrecorded
    · cases hrecorded
      exact ⟨hwf.proposed_of_committed hcommitted, rfl, (hwf.committed hcommitted).2.2⟩

/-- The operation that a message executes is the proposal of its invocation. -/
theorem Sends.executed (hwf : inv.Wf) (h : inv.Sends msg) {key : String} {op : Operation}
    (hexecuted : msg.executed reply = some (key, op)) :
    inv.Committed ∧ key = inv.key ∧ op = inv.proposal := by
  cases msg with
  | ping => cases hexecuted
  | prepare request => cases hexecuted
  | propose request => cases hexecuted
  | inform request =>
    obtain ⟨hcommitted, rfl⟩ := h
    simp only [Message.executed] at hexecuted
    split at hexecuted
    · cases hexecuted
      refine ⟨hcommitted, rfl, ?_⟩
      rw [informReq, (hwf.committed hcommitted).2.2]
      rfl
    · cases hexecuted

end Effects

end Invocation

namespace System

/-- The database of a server. -/
def db (σ : System) (addr : Addr) : KeyValueDataBase := (σ.servers addr).kvDb

/-! ## Reading off the new state -/

section Reads

variable (σ : System) (run : Nat) (inv : Invocation) (receiver addr : Addr) (msg : Message)
  (context : ServerContext) (randomFail : Bool) (fate : Fate)

theorem deliver_handled :
    Handled (σ.servers receiver)
      ((σ.deliver run receiver msg context randomFail).servers receiver) msg
      (σ.answer receiver msg context randomFail) := by
  simp only [deliver, answer, Function.update_self]
  exact MultiPaxosServiceImpl.handle_handled _ _ _ _

variable {addr receiver} in
theorem deliver_other (h : addr ≠ receiver) :
    (σ.deliver run receiver msg context randomFail).servers addr = σ.servers addr := by
  simp only [deliver, Function.update_of_ne h]

/-- A delivered call is handled at its receiver. -/
theorem call_handled :
    Handled (σ.servers receiver)
      ((σ.call run inv receiver msg .delivered randomFail).servers receiver) msg
      (σ.answer receiver msg {} randomFail) :=
  (σ.send run receiver msg).deliver_handled run receiver msg {} randomFail

variable {addr receiver fate} in
theorem call_other (h : addr ≠ receiver) :
    (σ.call run inv receiver msg fate randomFail).servers addr = σ.servers addr := by
  cases fate with
  | delivered => exact (σ.send run receiver msg).deliver_other run msg {} randomFail h
  | lost => rfl
  | replyLost => rfl

variable {fate} in
theorem call_undelivered (h : fate ≠ .delivered) :
    (σ.call run inv receiver msg fate randomFail).servers = σ.servers := by
  cases fate with
  | delivered => exact absurd rfl h
  | lost => rfl
  | replyLost => rfl

/-- A call adds its send to the history, and its handling if it is delivered. -/
theorem mem_call_history {e : Event} :
    e ∈ (σ.call run inv receiver msg fate randomFail).history ↔
      (fate = .delivered ∧ e = .handled run receiver msg (σ.answer receiver msg {} randomFail)
        (σ.dataChanged receiver msg {} randomFail)) ∨
      e = .sent run receiver msg ∨ e ∈ σ.history := by
  cases fate with
  | delivered =>
    show e ∈ .handled run receiver msg (σ.answer receiver msg {} randomFail)
      (σ.dataChanged receiver msg {} randomFail) :: .sent run receiver msg :: σ.history ↔ _
    simp only [List.mem_cons, true_and]
  | lost => simp [call, setRun, send]
  | replyLost => simp [call, setRun, send]

theorem call_inFlight :
    (σ.call run inv receiver msg fate randomFail).inFlight =
      if fate = .replyLost then σ.inFlight ++ [(run, receiver, msg)] else σ.inFlight := by
  cases fate <;> rfl

/-- What the caller sees of a call. -/
def callAnswer : Option Reply :=
  match fate with
  | .delivered => some (σ.answer receiver msg {} randomFail)
  | _ => none

theorem call_runs :
    (σ.call run inv receiver msg fate randomFail).runs =
      σ.runs.set run (inv.receive receiver (σ.callAnswer receiver msg randomFail fate)) := by
  cases fate <;> rfl

theorem callAnswer_answers :
    Invocation.Answers msg (σ.callAnswer receiver msg randomFail fate) := by
  intro reply hreply
  cases fate with
  | delivered =>
    cases hreply
    exact ⟨_, _, _, rfl⟩
  | lost => cases hreply
  | replyLost => cases hreply

/-- A promise that reaches the caller is the acceptor's own answer. -/
theorem callAnswer_prepare {request : PrepareRequest} {status : Status}
    {response : PromiseResponse}
    (h : σ.callAnswer receiver (.prepare request) randomFail fate =
      some (.prepare status response)) :
    fate = .delivered ∧
      ((σ.servers receiver).prepare {} request randomFail).1 = (status, response) := by
  cases fate with
  | delivered =>
    simp only [callAnswer, answer, MultiPaxosServiceImpl.handle, Option.some.injEq,
      Reply.prepare.injEq] at h
    exact ⟨rfl, Prod.ext h.1 h.2⟩
  | lost => cases h
  | replyLost => cases h

theorem noteReturn_runs : (σ.noteReturn run inv).runs = σ.runs := by
  unfold noteReturn
  split <;> rfl

theorem noteReturn_servers : (σ.noteReturn run inv).servers = σ.servers := by
  unfold noteReturn
  split <;> rfl

theorem noteReturn_inFlight : (σ.noteReturn run inv).inFlight = σ.inFlight := by
  unfold noteReturn
  split <;> rfl

/-- A return adds its event to the history. -/
theorem mem_noteReturn_history {e : Event} :
    e ∈ (σ.noteReturn run inv).history ↔
      (∃ status, inv.phase = .returned status ∧ e = .returned run inv.request status) ∨
        e ∈ σ.history := by
  unfold noteReturn
  split
  · rename_i status h
    simp [h]
  · rename_i h
    constructor
    · exact Or.inr
    · rintro (⟨status, hphase, _⟩ | he)
      · exact absurd hphase (h status)
      · exact he

end Reads

/-- Looking up an invocation after one of them was replaced. -/
theorem getElem?_set_cases {runs : List Invocation} {run j : Nat} {inv inv' old : Invocation}
    (hrun : runs[run]? = some old) (h : (runs.set run inv)[j]? = some inv') :
    (j = run ∧ inv' = inv) ∨ (j ≠ run ∧ runs[j]? = some inv') := by
  have hlt : run < runs.length := (List.getElem?_eq_some_iff.mp hrun).1
  rw [List.getElem?_set] at h
  split at h
  · rename_i heq
    exact Or.inl ⟨heq.symm, (Option.some.inj h).symm⟩
  · rename_i hne
    exact Or.inr ⟨Ne.symm hne, h⟩

theorem getElem?_set_self' {runs : List Invocation} {run : Nat} {inv old : Invocation}
    (hrun : runs[run]? = some old) : (runs.set run inv)[run]? = some inv := by
  have hlt : run < runs.length := (List.getElem?_eq_some_iff.mp hrun).1
  rw [List.getElem?_set, if_pos rfl, if_pos hlt]

/-- Looking up an invocation after one was appended. -/
theorem getElem?_snoc_cases {runs : List Invocation} {j : Nat} {inv inv' : Invocation}
    (h : (runs ++ [inv])[j]? = some inv') :
    (j = runs.length ∧ inv' = inv) ∨ runs[j]? = some inv' := by
  rcases lt_trichotomy j runs.length with hlt | heq | hgt
  · rw [List.getElem?_append_left hlt] at h
    exact Or.inr h
  · subst heq
    rw [List.getElem?_concat_length] at h
    exact Or.inl ⟨rfl, (Option.some.inj h).symm⟩
  · rw [List.getElem?_eq_none (by simp; omega)] at h
    cases h

theorem getElem?_snoc_of_some {runs : List Invocation} {j : Nat} {inv inv' : Invocation}
    (h : runs[j]? = some inv') : (runs ++ [inv])[j]? = some inv' := by
  rw [List.getElem?_append_left (List.getElem?_eq_some_iff.mp h).1, h]

/-! ## How the list of invocations changes -/

/-- All invocations are well formed. -/
def WfRuns (σ : System) : Prop :=
  ∀ (i : Nat) (inv : Invocation), σ.runs[i]? = some inv → inv.Wf

/-- Every invocation is still there, and evolved. -/
def Continues (σ σ' : System) : Prop :=
  ∀ (i : Nat) (inv : Invocation), σ.runs[i]? = some inv →
    ∃ inv', σ'.runs[i]? = some inv' ∧ inv.Evolves inv'

theorem continues_of_runs_eq {σ σ' : System} (h : σ'.runs = σ.runs) : Continues σ σ' :=
  fun _ inv hrun => ⟨inv, h ▸ hrun, .refl inv⟩

theorem continues_of_set {σ σ' : System} {run : Nat} {inv inv' : Invocation}
    (hrun : σ.runs[run]? = some inv) (hevolves : inv.Evolves inv')
    (h : σ'.runs = σ.runs.set run inv') : Continues σ σ' := by
  intro i old hold
  by_cases hi : i = run
  · subst hi
    rw [hrun] at hold
    cases hold
    exact ⟨inv', h ▸ getElem?_set_self' hrun, hevolves⟩
  · exact ⟨old, by rw [h, List.getElem?_set_ne (Ne.symm hi), hold], .refl old⟩

/-- An invocation evolves with every answer that its call can get. -/
theorem call_evolves (σ : System) {inv : Invocation} {receiver : Addr} {msg : Message}
    (hcall : inv.Calls receiver msg) (randomFail : Bool) (fate : Fate) :
    inv.Evolves (inv.receive receiver (σ.callAnswer receiver msg randomFail fate)) :=
  .receives (Invocation.receives_of_calls hcall (σ.callAnswer_answers _ _ _ _))

theorem step_continues {σ σ' : System} {act : Action} (hwf : WfRuns σ)
    (h : StepCases σ act σ') : Continues σ σ' := by
  cases h with
  | refuse hrefusal => exact continues_of_runs_eq rfl
  | enter hrefusal => exact fun i inv hrun => ⟨inv, getElem?_snoc_of_some hrun, .refl inv⟩
  | call fate randomFail hrun hcall =>
    exact continues_of_set hrun (σ.call_evolves hcall randomFail fate) (call_runs ..)
  | advance hrun hadvance =>
    exact continues_of_set hrun (.advances (hwf _ _ hrun) hadvance) (noteReturn_runs ..)
  | arrive context randomFail hindex => exact continues_of_runs_eq rfl

theorem step_wfRuns {σ σ' : System} {act : Action} (hwf : WfRuns σ)
    (h : StepCases σ act σ') : WfRuns σ' := by
  intro i inv' hi
  cases h with
  | refuse hrefusal => exact hwf i inv' hi
  | enter hrefusal =>
    rcases getElem?_snoc_cases hi with ⟨_, rfl⟩ | hi
    · exact Invocation.wf_enter ..
    · exact hwf i inv' hi
  | call fate randomFail hrun hcall =>
    rw [call_runs] at hi
    rcases getElem?_set_cases hrun hi with ⟨_, rfl⟩ | ⟨_, hi⟩
    · exact (hwf _ _ hrun).receives
        (Invocation.receives_of_calls hcall (σ.callAnswer_answers _ _ _ _))
    · exact hwf i inv' hi
  | advance hrun hadvance =>
    rw [noteReturn_runs] at hi
    rcases getElem?_set_cases hrun hi with ⟨_, rfl⟩ | ⟨_, hi⟩
    · exact (hwf _ _ hrun).advances hadvance
    · exact hwf i inv' hi
  | arrive context randomFail hindex => exact hwf i inv' hi

/-! ## Provenance -/

/-- `round` was chosen by an invocation on `key`. -/
def RoundFrom (σ : System) (key : String) (round : Int) : Prop :=
  ∃ (i : Nat) (inv : Invocation), σ.runs[i]? = some inv ∧ inv.key = key ∧ inv.round = round

/-- `op` is what the request of an invocation for that key and round asked
for, and this invocation got its promises without adopting anything. -/
def ProposalFrom (σ : System) (key : String) (round : Int) (op : Operation) : Prop :=
  ∃ (i : Nat) (inv : Invocation), σ.runs[i]? = some inv ∧ inv.key = key ∧
    inv.round = round ∧ inv.Proposed ∧ inv.acceptedId = 0 ∧ op = inv.request.setProposeValue

theorem RoundFrom.continues {σ σ' : System} {key : String} {round : Int}
    (hcont : Continues σ σ') (h : σ.RoundFrom key round) : σ'.RoundFrom key round := by
  obtain ⟨i, inv, hrun, rfl, rfl⟩ := h
  obtain ⟨inv', hrun', hevolves⟩ := hcont i inv hrun
  exact ⟨i, inv', hrun', hevolves.key, hevolves.round⟩

theorem ProposalFrom.continues {σ σ' : System} {key : String} {round : Int} {op : Operation}
    (hcont : Continues σ σ') (h : σ.ProposalFrom key round op) :
    σ'.ProposalFrom key round op := by
  obtain ⟨i, inv, hrun, rfl, rfl, hproposed, hown, rfl⟩ := h
  obtain ⟨inv', hrun', hevolves⟩ := hcont i inv hrun
  obtain ⟨hproposed', hid, _⟩ := hevolves.proposed hproposed
  exact ⟨i, inv', hrun', hevolves.key, hevolves.round, hproposed', hid.trans hown,
    by rw [hevolves.request]⟩

/-- What an invocation carries from its promises: nothing, or the operation of
another invocation for its key and round. -/
def AdoptedFrom (σ : System) (inv : Invocation) : Prop :=
  inv.acceptedId = 0 ∨
    inv.acceptedId = 1 ∧ σ.ProposalFrom inv.key inv.round inv.acceptedOperation

theorem AdoptedFrom.continues {σ σ' : System} {inv : Invocation} (hcont : Continues σ σ')
    (h : σ.AdoptedFrom inv) : σ'.AdoptedFrom inv :=
  h.imp_right fun ⟨hid, hfrom⟩ => ⟨hid, hfrom.continues hcont⟩

/-- The proposal of an invocation is its own operation or the adopted one. -/
theorem proposalFrom_proposal {σ : System} {i : Nat} {inv : Invocation}
    (hrun : σ.runs[i]? = some inv) (hadopted : σ.AdoptedFrom inv) (hproposed : inv.Proposed) :
    σ.ProposalFrom inv.key inv.round inv.proposal := by
  unfold Invocation.proposal
  rcases hadopted with h0 | ⟨h1, hfrom⟩
  · rw [if_neg (by omega)]
    exact ⟨i, inv, hrun, rfl, rfl, hproposed, h0, rfl⟩
  · rw [if_pos (by omega)]
    exact hfrom

/-- What a database holds comes from invocations, and no promise is in it. -/
structure DbFrom (σ : System) (db : KeyValueDataBase) : Prop where
  rounds : ∀ key r, r ∈ db.rounds key → σ.RoundFrom key r
  promised : ∀ key r, (db.paxosLog key r).promisedId = 0
  accepted : ∀ key r, (db.paxosLog key r).acceptedId = 0 ∨
    (db.paxosLog key r).acceptedId = 1 ∧
      σ.ProposalFrom key r (db.paxosLog key r).operation

theorem DbFrom.continues {σ σ' : System} {db : KeyValueDataBase} (hcont : Continues σ σ')
    (h : σ.DbFrom db) : σ'.DbFrom db where
  rounds key r hr := (h.rounds key r hr).continues hcont
  promised := h.promised
  accepted key r := (h.accepted key r).imp_right fun ⟨hid, hfrom⟩ =>
    ⟨hid, hfrom.continues hcont⟩

/-- A handled message keeps the provenance of its receiver's database. -/
theorem DbFrom.handled {σ : System} {s s' : MultiPaxosServiceImpl} {msg : Message}
    {reply : Reply} {i : Nat} {inv : Invocation} (h : σ.DbFrom s.kvDb)
    (hrun : σ.runs[i]? = some inv) (hwf : inv.Wf) (hadopted : σ.AdoptedFrom inv)
    (hsends : inv.Sends msg) (hhandled : Handled s s' msg reply) : σ.DbFrom s'.kvDb := by
  have hslot : ∀ written, msg.recorded reply = some written →
      σ.ProposalFrom written.key written.acceptance.round written.acceptance.operation ∧
        written.acceptance.proposeId = 1 := by
    intro written hwritten
    obtain ⟨hproposed, hkey, hacc⟩ := hsends.recorded hwf hwritten
    rw [hkey, hacc]
    exact ⟨proposalFrom_proposal hrun hadopted hproposed, hwf.proposeId⟩
  refine ⟨?_, ?_, ?_⟩
  · intro key r hr
    rcases (hhandled.rounds key r).mp hr with hlogged | hr
    · obtain ⟨rfl, rfl⟩ := hsends.logged hwf hlogged
      exact ⟨i, inv, hrun, rfl, rfl⟩
    · exact h.rounds key r hr
  · intro key r
    rw [hhandled.log key r]
    split
    · split
      · exact h.promised key r
      · exact h.promised key r
    · exact h.promised key r
  · intro key r
    rw [hhandled.log key r]
    split
    · rename_i written hwritten
      split
      · rename_i heq
        obtain ⟨hfrom, hid⟩ := hslot written hwritten
        rw [heq.1, heq.2]
        exact Or.inr ⟨hid, hfrom⟩
      · exact h.accepted key r
    · exact h.accepted key r

/-- The provenance of everything in the system. -/
structure Provenance (σ : System) : Prop where
  wf : WfRuns σ
  positive : ∀ (i : Nat) (inv : Invocation), σ.runs[i]? = some inv → 1 ≤ inv.round
  db : ∀ addr, σ.DbFrom (σ.db addr)
  sent : ∀ i addr msg, Event.sent i addr msg ∈ σ.history →
    ∃ inv, σ.runs[i]? = some inv ∧ inv.Sends msg
  inFlight : ∀ i addr msg, (i, addr, msg) ∈ σ.inFlight → Event.sent i addr msg ∈ σ.history
  handled : ∀ i addr msg reply changed, Event.handled i addr msg reply changed ∈ σ.history →
    Event.sent i addr msg ∈ σ.history
  adopted : ∀ (i : Nat) (inv : Invocation), σ.runs[i]? = some inv → σ.AdoptedFrom inv
  returned : ∀ i request status, Event.returned i request status ∈ σ.history →
    ∃ inv, σ.runs[i]? = some inv ∧ inv.request = request ∧ inv.phase = .returned status

theorem provenance_init {σ : System} (h : σ.IsInitial) : Provenance σ where
  wf i inv hi := by simp [h.runs] at hi
  positive i inv hi := by simp [h.runs] at hi
  db addr := by
    rw [System.db, h.kvDb addr]
    exact ⟨by simp, by simp, by simp⟩
  sent i addr msg hmem := by simp [h.history] at hmem
  inFlight i addr msg hmem := by simp [h.inFlight] at hmem
  handled i addr msg reply changed hmem := by simp [h.history] at hmem
  adopted i inv hi := by simp [h.runs] at hi
  returned i request status hmem := by simp [h.history] at hmem

/-- An invocation after a step evolved from the one before it, or it has just
entered. -/
theorem step_runs_back {σ σ' : System} {act : Action} (hwf : WfRuns σ)
    (h : StepCases σ act σ') {i : Nat} {inv' : Invocation} (hi : σ'.runs[i]? = some inv') :
    (∃ inv, σ.runs[i]? = some inv ∧ inv.Evolves inv') ∨
      ∃ server request context, act = .start server request context ∧
        request.refusal context = none ∧ i = σ.runs.length ∧
        inv' = Invocation.enter server (σ.servers server) request := by
  cases h with
  | refuse hrefusal => exact Or.inl ⟨inv', hi, .refl _⟩
  | enter hrefusal =>
    rcases getElem?_snoc_cases hi with ⟨hlen, rfl⟩ | hi
    · exact Or.inr ⟨_, _, _, rfl, hrefusal, hlen, rfl⟩
    · exact Or.inl ⟨inv', hi, .refl _⟩
  | call fate randomFail hrun hcall =>
    rw [call_runs] at hi
    rcases getElem?_set_cases hrun hi with ⟨rfl, rfl⟩ | ⟨_, hi⟩
    · exact Or.inl ⟨_, hrun, σ.call_evolves hcall randomFail fate⟩
    · exact Or.inl ⟨inv', hi, .refl _⟩
  | advance hrun hadvance =>
    rw [noteReturn_runs] at hi
    rcases getElem?_set_cases hrun hi with ⟨rfl, rfl⟩ | ⟨_, hi⟩
    · exact Or.inl ⟨_, hrun, .advances (hwf _ _ hrun) hadvance⟩
    · exact Or.inl ⟨inv', hi, .refl _⟩
  | arrive context randomFail hindex => exact Or.inl ⟨inv', hi, .refl _⟩

/-- The latest round is never negative. -/
theorem Provenance.latestRound_nonneg {σ : System} (h : Provenance σ) (addr : Addr)
    (key : String) : 0 ≤ (σ.db addr).latestRound key := by
  rcases KeyValueDataBase.latestRound_cases (σ.db addr) key with ⟨_, h0⟩ | hmem
  · rw [h0]
  · obtain ⟨i, inv, hrun, _, hround⟩ := (h.db addr).rounds _ _ hmem
    have := h.positive i inv hrun
    omega

/-- Reading the latest round keeps the provenance. -/
theorem DbFrom.touchKey {σ : System} {db : KeyValueDataBase} (h : σ.DbFrom db)
    (key : String) : σ.DbFrom (db.touchKey key) where
  rounds key' r hr := h.rounds key' r (by simpa using hr)
  promised key' r := by simpa using h.promised key' r
  accepted key' r := by simpa using h.accepted key' r

theorem provenance_step_adopted {σ σ' : System} {act : Action} (h : Provenance σ)
    (hstep : StepCases σ act σ') {i : Nat} {inv' : Invocation}
    (hi : σ'.runs[i]? = some inv') : σ'.AdoptedFrom inv' := by
  have hcont := step_continues h.wf hstep
  have hold : ∀ inv : Invocation, σ.runs[i]? = some inv → σ'.AdoptedFrom inv :=
    fun inv hrun => (h.adopted i inv hrun).continues hcont
  cases hstep with
  | refuse hrefusal => exact hold inv' hi
  | enter hrefusal =>
    rcases getElem?_snoc_cases hi with ⟨_, rfl⟩ | hi
    · exact Or.inl rfl
    · exact hold inv' hi
  | @call run inv receiver msg fate randomFail hrun hcall =>
    rw [call_runs] at hi
    rcases getElem?_set_cases hrun hi with ⟨rfl, rfl⟩ | ⟨_, hi⟩
    · have hreceives := Invocation.receives_of_calls hcall
        (σ.callAnswer_answers receiver msg randomFail fate)
      have hinv := hold inv hrun
      generalize hanswer : σ.callAnswer receiver msg randomFail fate = reply at hreceives
      generalize inv.receive receiver reply = inv' at hreceives
      cases hreceives with
      | skip hcall hskip => exact hinv
      | live hphase hok => exact hinv
      | promise hphase hok hlow => exact hinv
      | @promiseHigher todo status response hphase hok hhigh =>
        -- the acceptor's log has the acceptance that the promise carries
        obtain ⟨_, hprepare⟩ := callAnswer_prepare _ _ _ _ hanswer
        have hcarries := (σ.servers receiver).prepare_carries randomFail inv.prepareReq
          (by rw [hprepare]; exact hok)
        rw [hprepare] at hcarries
        have hid : 0 < response.acceptedId := by
          rcases hinv with h0 | ⟨h1, _⟩ <;> omega
        rcases hcarries with ⟨hpos, hidEq, hopEq⟩ | ⟨_, h0⟩
        · rcases (h.db receiver).accepted inv.key inv.round with hzero | ⟨hone, hfrom⟩
          · exact absurd hzero (ne_of_gt hpos)
          · refine Or.inr ⟨hidEq.trans hone, ?_⟩
            have hop : response.operation =
                ((σ.db receiver).paxosLog inv.key inv.round).operation := hopEq
            have := hfrom.continues hcont
            rw [← hop] at this
            exact this
        · simp only at h0
          omega
      | accept hphase hok => exact hinv
    · exact hold inv' hi
  | advance hrun hadvance =>
    rw [noteReturn_runs] at hi
    rcases getElem?_set_cases hrun hi with ⟨rfl, rfl⟩ | ⟨_, hi⟩
    · have hinv := hold _ hrun
      cases hadvance <;> exact hinv
    · exact hold inv' hi
  | arrive context randomFail hindex => exact hold inv' hi

theorem provenance_step_db {σ σ' : System} {act : Action} (h : Provenance σ)
    (hstep : StepCases σ act σ') (addr : Addr) : σ'.DbFrom (σ'.db addr) := by
  have hcont := step_continues h.wf hstep
  have hold : σ'.DbFrom (σ.db addr) := (h.db addr).continues hcont
  cases hstep with
  | refuse hrefusal => exact hold
  | @enter server request hrefusal =>
    by_cases ha : addr = server
    · subst ha
      simp only [System.db, Function.update_self]
      exact hold.touchKey request.key
    · simp only [System.db, Function.update_of_ne ha]
      exact hold
  | @call run inv receiver msg fate randomFail hrun hcall =>
    by_cases ha : addr = receiver
    · subst ha
      by_cases hfate : fate = .delivered
      · subst hfate
        obtain ⟨inv', hrun', hevolves⟩ := hcont run inv hrun
        have hwf' := step_wfRuns h.wf (.call .delivered randomFail hrun hcall) run inv' hrun'
        have hadopted' := provenance_step_adopted h
          (.call .delivered randomFail hrun hcall) hrun'
        exact hold.handled hrun' hwf' hadopted' (hcall.sends.evolves hevolves)
          (σ.call_handled run inv addr msg randomFail)
      · rw [System.db, σ.call_undelivered _ _ _ _ _ hfate]
        exact hold
    · rw [System.db, σ.call_other _ _ _ _ ha]
      exact hold
  | advance hrun hadvance =>
    rw [System.db, noteReturn_servers]
    exact hold
  | @arrive index run receiver msg context randomFail hindex =>
    have hmem := h.inFlight run receiver msg (List.mem_of_getElem? hindex)
    obtain ⟨inv, hrun, hsends⟩ := h.sent run receiver msg hmem
    by_cases ha : addr = receiver
    · subst ha
      exact hold.handled hrun (h.wf run inv hrun) ((h.adopted run inv hrun).continues hcont)
        hsends
        (σ.deliver_handled run addr msg context randomFail)
    · have hother := σ.deliver_other run msg context randomFail ha
      rw [System.db]
      simp only at hother ⊢
      rw [hother]
      exact hold

theorem provenance_step_sent {σ σ' : System} {act : Action} (h : Provenance σ)
    (hstep : StepCases σ act σ') {i : Nat} {addr : Addr} {msg : Message}
    (hmem : Event.sent i addr msg ∈ σ'.history) :
    ∃ inv, σ'.runs[i]? = some inv ∧ inv.Sends msg := by
  have hcont := step_continues h.wf hstep
  have hold : Event.sent i addr msg ∈ σ.history →
      ∃ inv, σ'.runs[i]? = some inv ∧ inv.Sends msg := by
    intro hmem
    obtain ⟨inv, hrun, hsends⟩ := h.sent i addr msg hmem
    obtain ⟨inv', hrun', hevolves⟩ := hcont i inv hrun
    exact ⟨inv', hrun', hsends.evolves hevolves⟩
  cases hstep with
  | refuse hrefusal => exact hold (by simpa using hmem)
  | enter hrefusal => exact hold hmem
  | call fate randomFail hrun hcall =>
    rcases (mem_call_history ..).mp hmem with ⟨_, heq⟩ | heq | hmem
    · cases heq
    · cases heq
      obtain ⟨inv', hrun', hevolves⟩ := hcont _ _ hrun
      exact ⟨inv', hrun', hcall.sends.evolves hevolves⟩
    · exact hold hmem
  | advance hrun hadvance =>
    rcases (mem_noteReturn_history ..).mp hmem with ⟨_, _, heq⟩ | hmem
    · cases heq
    · exact hold hmem
  | arrive context randomFail hindex => exact hold (by simpa [deliver] using hmem)

theorem provenance_step_inFlight {σ σ' : System} {act : Action} (h : Provenance σ)
    (hstep : StepCases σ act σ') {i : Nat} {addr : Addr} {msg : Message}
    (hmem : (i, addr, msg) ∈ σ'.inFlight) : Event.sent i addr msg ∈ σ'.history := by
  cases hstep with
  | refuse hrefusal => exact List.mem_cons_of_mem _ (h.inFlight i addr msg hmem)
  | enter hrefusal => exact h.inFlight i addr msg hmem
  | call fate randomFail hrun hcall =>
    rw [mem_call_history]
    rw [call_inFlight] at hmem
    split at hmem
    · rcases List.mem_append.mp hmem with hmem | hmem
      · exact Or.inr (Or.inr (h.inFlight i addr msg hmem))
      · cases List.mem_singleton.mp hmem
        exact Or.inr (Or.inl rfl)
    · exact Or.inr (Or.inr (h.inFlight i addr msg hmem))
  | advance hrun hadvance =>
    rw [noteReturn_inFlight] at hmem
    exact (mem_noteReturn_history ..).mpr (Or.inr (h.inFlight i addr msg hmem))
  | arrive context randomFail hindex =>
    exact List.mem_cons_of_mem _ (h.inFlight i addr msg (List.mem_of_mem_eraseIdx hmem))

theorem provenance_step_handled {σ σ' : System} {act : Action} (h : Provenance σ)
    (hstep : StepCases σ act σ') {i : Nat} {addr : Addr} {msg : Message} {reply : Reply}
    {changed : Bool} (hmem : Event.handled i addr msg reply changed ∈ σ'.history) :
    Event.sent i addr msg ∈ σ'.history := by
  cases hstep with
  | refuse hrefusal =>
    exact List.mem_cons_of_mem _ (h.handled i addr msg reply changed (by simpa using hmem))
  | enter hrefusal => exact h.handled i addr msg reply changed hmem
  | call fate randomFail hrun hcall =>
    rw [mem_call_history]
    rcases (mem_call_history ..).mp hmem with ⟨_, heq⟩ | heq | hmem
    · cases heq
      exact Or.inr (Or.inl rfl)
    · cases heq
    · exact Or.inr (Or.inr (h.handled i addr msg reply changed hmem))
  | advance hrun hadvance =>
    rw [mem_noteReturn_history]
    rcases (mem_noteReturn_history ..).mp hmem with ⟨_, _, heq⟩ | hmem
    · cases heq
    · exact Or.inr (h.handled i addr msg reply changed hmem)
  | arrive context randomFail hindex =>
    refine List.mem_cons_of_mem _ ?_
    rcases List.mem_cons.mp hmem with heq | hmem
    · cases heq
      exact h.inFlight _ _ _ (List.mem_of_getElem? hindex)
    · exact h.handled i addr msg reply changed hmem

theorem provenance_step_returned {σ σ' : System} {act : Action} (h : Provenance σ)
    (hstep : StepCases σ act σ') {i : Nat} {request : Request} {status : Status}
    (hmem : Event.returned i request status ∈ σ'.history) :
    ∃ inv, σ'.runs[i]? = some inv ∧ inv.request = request ∧ inv.phase = .returned status := by
  have hold : Event.returned i request status ∈ σ.history → ∃ inv, σ'.runs[i]? = some inv ∧
      inv.request = request ∧ inv.phase = .returned status := by
    intro hmem
    obtain ⟨inv, hrun, hrequest, hphase⟩ := h.returned i request status hmem
    obtain ⟨inv', hrun', hevolves⟩ := step_continues h.wf hstep i inv hrun
    rw [hevolves.returned (by simp [Invocation.Active, hphase])] at hrun'
    exact ⟨inv, hrun', hrequest, hphase⟩
  cases hstep with
  | refuse hrefusal => exact hold (by simpa using hmem)
  | enter hrefusal => exact hold hmem
  | call fate randomFail hrun hcall =>
    rcases (mem_call_history ..).mp hmem with ⟨_, heq⟩ | heq | hmem
    · cases heq
    · cases heq
    · exact hold hmem
  | @advance run inv inv' hrun hadvance =>
    rcases (mem_noteReturn_history ..).mp hmem with ⟨status', hphase, heq⟩ | hmem
    · cases heq
      rw [noteReturn_runs]
      exact ⟨inv', getElem?_set_self' hrun, rfl, hphase⟩
    · exact hold hmem
  | arrive context randomFail hindex => exact hold (by simpa [deliver] using hmem)

/-- Every step keeps the provenance. -/
theorem provenance_step {σ σ' : System} {act : Action} (h : Provenance σ)
    (hstep : StepCases σ act σ') : Provenance σ' where
  wf := step_wfRuns h.wf hstep
  positive i inv' hi := by
    rcases step_runs_back h.wf hstep hi with
      ⟨inv, hrun, hevolves⟩ | ⟨server, request, _, _, _, _, rfl⟩
    · rw [hevolves.round]
      exact h.positive i inv hrun
    · have hnonneg := h.latestRound_nonneg server request.key
      show 1 ≤ (σ.db server).latestRound request.key + 1
      omega
  db := provenance_step_db h hstep
  sent i addr msg := provenance_step_sent h hstep
  inFlight i addr msg := provenance_step_inFlight h hstep
  handled i addr msg reply changed := provenance_step_handled h hstep
  adopted i inv' := provenance_step_adopted h hstep
  returned i request status := provenance_step_returned h hstep

/-- The provenance holds in every reachable state, whatever the network does. -/
theorem provenance_of_reachable {setup : System → Prop} {C : System → Action → Prop}
    {σ : System} (h : (paxos setup).Reachable C σ) : Provenance σ := by
  refine ActionSystem.Reachable.invariant ?_ ?_ h
  · intro σ hinit
    exact provenance_init hinit.1
  · intro σ act σ' _ _ hstep hprov
    exact provenance_step hprov (step_cases hstep)

/-- An `Inform` was sent by an invocation that reached its `Propose` majority,
for its own proposal. -/
theorem Provenance.sent_inform {σ : System} (hprov : Provenance σ) {i : Nat} {a : Addr}
    {request : InformRequest} (h : .sent i a (.inform request) ∈ σ.history) :
    ∃ inv, σ.runs[i]? = some inv ∧ inv.Committed ∧ request = inv.informReq ∧
      request.acceptance = inv.acceptanceOf := by
  obtain ⟨inv, hrun, hcommitted, rfl⟩ := hprov.sent i a _ h
  exact ⟨inv, hrun, hcommitted, rfl, ((hprov.wf i inv hrun).committed hcommitted).2.2⟩

theorem Provenance.handled_inform {σ : System} (hprov : Provenance σ) {i : Nat} {a : Addr}
    {request : InformRequest} {reply : Reply} {changed : Bool}
    (h : .handled i a (.inform request) reply changed ∈ σ.history) :
    ∃ inv, σ.runs[i]? = some inv ∧ inv.Committed ∧ request = inv.informReq ∧
      request.acceptance = inv.acceptanceOf :=
  hprov.sent_inform (hprov.handled i a _ reply changed h)

end System

end PaxosKVStore
