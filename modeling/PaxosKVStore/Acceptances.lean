import PaxosKVStore.Promises

/-!
# When an acceptance is replaced

Three writers put an acceptance into the log: `Propose`, `Inform` and the
recovery.  None of them looks at what is there, and every identifier is 1, so
no acceptance is ever superseded by a higher one.  It stays exactly when the
step hands over the same operation for its slot: `Compatible`.

Which operations can be handed over for a slot depends on the invocations that
propose for it.  An acceptance in a log, in a message or in a snapshot goes
back to one that proposed the operation of its own request.  So if no two
invocations do that with different operations (`Undisputed`), no acceptance is
ever replaced, whatever is lost, late, crashed or recovered in between.
-/

namespace PaxosKVStore

/-- The operation that a log holds as accepted. -/
def PaxosLog.accepted (log : PaxosLog) : Option Operation :=
  if 0 < log.acceptedId then some log.operation else none

/-- What a log holds as accepted is there afterwards, or something with a
higher identifier. -/
def PaxosLog.KeptBy (log log' : PaxosLog) : Prop :=
  0 < log.acceptedId →
    (log'.acceptedId = log.acceptedId ∧ log'.operation = log.operation) ∨
      log.acceptedId < log'.acceptedId

/-- The acceptance that a call is to write, unless it fails by itself. -/
def AcceptorCall.writes (call : AcceptorCall) : Option (String × Int × Operation) :=
  if call.context.isCancelled then none
  else
    match call.msg with
    | .propose request =>
        if MultiPaxosServiceImpl.Rejects request.key call.randomFail then none
        else some (request.key, request.round, request.operation)
    | .inform request =>
        some (request.key, request.acceptance.round, request.acceptance.operation)
    | _ => none

/-- The call that arrives in a step, with its receiver. -/
def System.arriving (σ : System) : Action → Option (Addr × AcceptorCall)
  | .call run .delivered randomFail =>
      (σ.runs[run]?.bind Invocation.nextCall).map fun (receiver, msg) =>
        (receiver, { randomFail := randomFail, msg := msg })
  | .arrive index context randomFail =>
      (σ.inFlight[index]?).map fun (_, receiver, msg) =>
        (receiver, { context := context, randomFail := randomFail, msg := msg })
  | _ => none

namespace Cluster

/-- The server, the slot and the acceptance that a step hands over for it.
Only a recovery can hand over that there is none. -/
def handingOver (c : Cluster) : Action → Option (Addr × String × Int × Option Operation)
  | .paxos act =>
      (c.system.arriving act).bind fun (receiver, call) =>
        call.writes.map fun (key, r, op) => (receiver, key, r, some op)
  | .initializeServer server (.addPaxosLog index) =>
      match c.initializing server with
      | .restoring _ paxosLogs =>
          paxosLogs[index]?.map fun (key, r, log) => (server, key, r, log.accepted)
      | _ => none
  | _ => none

/-- The operation that `a` holds as accepted for a slot. -/
def acceptedAt (c : Cluster) (a : Addr) (key : String) (r : Int) : Option Operation :=
  ((c.system.servers a).kvDb.paxosLog key r).accepted

/-- Each acceptance of a server stays, or one with a higher identifier takes
its place. -/
def AcceptancesKept (c c' : Cluster) : Prop :=
  ∀ a key r, ((c.system.servers a).kvDb.paxosLog key r).KeptBy
    ((c'.system.servers a).kvDb.paxosLog key r)

/-- What the step hands over for a slot with an acceptance is the operation of
that acceptance. -/
def Compatible (c : Cluster) (act : Action) : Prop :=
  ∀ a key r new, c.handingOver act = some (a, key, r, new) →
    ∀ old, c.acceptedAt a key r = some old → new = some old

end Cluster

/-! ## The acceptances before and after a step -/

theorem PaxosLog.accepted_eq_some_iff {log : PaxosLog} {op : Operation} :
    log.accepted = some op ↔ 0 < log.acceptedId ∧ log.operation = op := by
  unfold accepted
  split
  · rename_i hpos
    simp [hpos]
  · rename_i hpos
    simp [hpos]

/-- Where no identifier is above 1, an acceptance is kept or replaced. -/
theorem PaxosLog.keptBy_iff {log log' : PaxosLog} (h : log.acceptedId ≤ 1)
    (h' : log'.acceptedId ≤ 1) :
    log.KeptBy log' ↔ ∀ op, log.accepted = some op → log'.accepted = some op := by
  constructor
  · intro hkept op hop
    obtain ⟨hpos, rfl⟩ := accepted_eq_some_iff.mp hop
    rw [accepted_eq_some_iff]
    rcases hkept hpos with ⟨hid, hsame⟩ | hlt
    · exact ⟨by omega, hsame⟩
    · omega
  · intro hsame hpos
    obtain ⟨hpos', hop⟩ := accepted_eq_some_iff.mp
      (hsame log.operation (accepted_eq_some_iff.mpr ⟨hpos, rfl⟩))
    exact Or.inl ⟨by omega, hop⟩

/-- The acceptance of a log after an acceptance with a positive identifier was
written to it. -/
theorem PaxosLog.accepted_accept {log : PaxosLog} {acceptance : AcceptResponse}
    (h : 0 < acceptance.proposeId) :
    (log.accept acceptance).accepted = some acceptance.operation :=
  accepted_eq_some_iff.mpr ⟨h, rfl⟩

/-- A positive call records an acceptance with a positive identifier. -/
theorem Message.IsPositive.recorded {msg : Message} (h : msg.IsPositive) {reply : Reply}
    {written : InformRequest} (hrecorded : msg.recorded reply = some written) :
    0 < written.acceptance.proposeId := by
  cases msg with
  | ping => cases hrecorded
  | prepare request => cases hrecorded
  | propose request =>
    rw [Message.recorded] at hrecorded
    split at hrecorded
    · cases hrecorded
      exact h.2
    · cases hrecorded
  | inform request =>
    rw [Message.recorded] at hrecorded
    split at hrecorded
    · cases hrecorded
    · cases hrecorded
      exact h.2

namespace MultiPaxosServiceImpl

variable {s : MultiPaxosServiceImpl}

/-- An acceptor without a promise records the calls that do not fail. -/
theorem NoPromise.recorded (h : s.NoPromise) (call : AcceptorCall)
    (hpositive : call.msg.IsPositive) :
    (call.msg.recorded (s.handle call.context call.randomFail call.msg).1).map
        (fun written => (written.key, written.acceptance.round, written.acceptance.operation)) =
      call.writes := by
  obtain ⟨⟨isCancelled⟩, randomFail, msg⟩ := call
  cases msg with
  | ping => cases isCancelled <;> rfl
  | prepare request => cases isCancelled <;> rfl
  | propose request =>
    have hiff := @NoPromise.propose_ok_iff s h ⟨⟨isCancelled⟩, randomFail, .propose request⟩
      request rfl hpositive.2
    simp only [AcceptorCall.Fails, Message.slot, Option.mem_def, Option.some.injEq,
      exists_eq_left'] at hiff
    simp only [AcceptorCall.writes, Message.recorded, hiff]
    cases isCancelled with
    | true => simp
    | false =>
      by_cases hrejects : Rejects request.key randomFail
      · simp [hrejects]
      · simp only [hrejects, Bool.false_eq_true, or_self, not_false_eq_true, if_true, if_false]
        rfl
  | inform request =>
    cases isCancelled with
    | true => rfl
    | false =>
      have hnc := inform_not_cancelled s request
      simp only [AcceptorCall.writes, Message.recorded, Bool.false_eq_true, if_false]
      rw [if_neg (by exact hnc)]
      rfl

/-- What is accepted for a slot after a call. -/
theorem NoPromise.accepted_handle (h : s.NoPromise) (call : AcceptorCall)
    (hpositive : call.msg.IsPositive) (key : String) (r : Int) :
    ((s.handle call.context call.randomFail call.msg).2.kvDb.paxosLog key r).accepted =
      match call.writes with
      | some (key', r', op) =>
          if key = key' ∧ r = r' then some op else (s.kvDb.paxosLog key r).accepted
      | none => (s.kvDb.paxosLog key r).accepted := by
  rw [← h.recorded call hpositive]
  rw [(handle_handled s call.randomFail call.context call.msg).log]
  cases hrecorded : call.msg.recorded (s.handle call.context call.randomFail call.msg).1 with
  | none => rfl
  | some written =>
    simp only [Option.map_some]
    split
    · exact PaxosLog.accepted_accept (hpositive.recorded hrecorded)
    · rfl

end MultiPaxosServiceImpl

namespace System

variable {σ σ' : System} {act : Action}

/-- The messages that an invocation sends are positive. -/
theorem Provenance.isPositive (h : Provenance σ) {i : Nat} {inv : Invocation} {msg : Message}
    (hrun : σ.runs[i]? = some inv) (hsends : inv.Sends msg) : msg.IsPositive := by
  have hround := h.positive i inv hrun
  have hid : inv.proposeId = 1 := (h.wf i inv hrun).proposeId
  cases msg with
  | ping => trivial
  | prepare request =>
    cases hsends
    exact ⟨hround, by simp [Invocation.prepareReq, hid]⟩
  | propose request =>
    obtain ⟨hproposed, rfl⟩ := hsends
    exact ⟨hround, by simp [Invocation.proposeReq, hid]⟩
  | inform request =>
    obtain ⟨hcommitted, rfl⟩ := hsends
    have hacceptance := ((h.wf i inv hrun).committed hcommitted).2.2
    rw [Message.IsPositive, Invocation.informReq, hacceptance]
    exact ⟨hround, by simp [Invocation.acceptanceOf, hid]⟩

/-- The call that arrives was sent by an invocation. -/
theorem Provenance.arriving_sends (h : Provenance σ) {a : Addr} {call : AcceptorCall}
    (harriving : σ.arriving act = some (a, call)) :
    ∃ (i : Nat) (inv : Invocation), σ.runs[i]? = some inv ∧ inv.Sends call.msg := by
  unfold arriving at harriving
  split at harriving
  · rename_i run randomFail
    obtain ⟨⟨receiver, msg⟩, hbind, heq⟩ := Option.map_eq_some_iff.mp harriving
    obtain ⟨inv, hrun, hnext⟩ := Option.bind_eq_some_iff.mp hbind
    cases heq
    exact ⟨run, inv, hrun, (Invocation.calls_of_nextCall hnext).sends⟩
  · obtain ⟨⟨run, receiver, msg⟩, hindex, heq⟩ := Option.map_eq_some_iff.mp harriving
    cases heq
    obtain ⟨inv, hrun, hsends⟩ :=
      h.sent _ _ _ (h.inFlight _ _ _ (List.mem_of_getElem? hindex))
    exact ⟨run, inv, hrun, hsends⟩
  · cases harriving

/-- The logs after a step: those of the receiver are as the arriving call
leaves them, and all others as they were. -/
theorem StepCases.logs (h : StepCases σ act σ') (a : Addr) (key : String) (r : Int) :
    (σ'.servers a).kvDb.paxosLog key r =
      match σ.arriving act with
      | some (receiver, arrived) =>
          if a = receiver then
            ((σ.servers a).handle arrived.context arrived.randomFail
              arrived.msg).2.kvDb.paxosLog key r
          else (σ.servers a).kvDb.paxosLog key r
      | none => (σ.servers a).kvDb.paxosLog key r := by
  cases h with
  | refuse hrefusal => rfl
  | @enter server request context hrefusal =>
    show (Function.update σ.servers server _ a).kvDb.paxosLog key r = _
    by_cases ha : a = server
    · subst ha
      rw [Function.update_self]
      exact KeyValueDataBase.paxosLog_touchKey _ _ _ _
    · rw [Function.update_of_ne ha]
      rfl
  | @call run inv receiver msg fate randomFail hrun hcall =>
    cases fate with
    | delivered =>
      simp only [arriving, hrun, Option.bind_some, Invocation.nextCall_of_calls hcall,
        Option.map_some]
      show (Function.update σ.servers receiver
        ((σ.servers receiver).handle {} randomFail msg).2 a).kvDb.paxosLog key r = _
      by_cases ha : a = receiver
      · subst ha
        rw [Function.update_self, if_pos rfl]
      · rw [Function.update_of_ne ha, if_neg ha]
    | lost => rfl
    | replyLost => rfl
  | @advance run inv inv' hrun hadvance =>
    rw [noteReturn_servers]
    rfl
  | @arrive index run receiver msg context randomFail hindex =>
    simp only [arriving, hindex, Option.map_some]
    show (Function.update σ.servers receiver _ a).kvDb.paxosLog key r = _
    by_cases ha : a = receiver
    · subst ha
      rw [Function.update_self, if_pos rfl]
    · rw [Function.update_of_ne ha, if_neg ha]

end System

namespace Cluster

variable {c c' : Cluster} {act : Action}

/-- Where a recovery writes a log. -/
theorem step_addPaxosLog {server : Addr} {index : Nat}
    (h : c.step (.initializeServer server (.addPaxosLog index)) = some c') :
    ∃ (key : String) (r : Int) (log : PaxosLog),
      c.handingOver (.initializeServer server (.addPaxosLog index)) =
        some (server, key, r, log.accepted) ∧
      c'.system.servers = Function.update c.system.servers server
        { c.system.servers server with
          kvDb := (c.system.servers server).kvDb.addPaxosLogRecovered key r log } := by
  change c.initializeServer server (.addPaxosLog index) = some c' at h
  cases hphase : c.initializing server with
  | restoring kvMap paxosLogs =>
    cases kvMap with
    | nil =>
      simp only [initializeServer, hphase] at h
      split at h
      · cases h
      · rename_i key r log hindex
        cases h
        refine ⟨key, r, log, ?_, rfl⟩
        simp only [handingOver, hphase, hindex, Option.map_some]
    | cons entry kvMap => simp [initializeServer, hphase] at h
  | discovering todo found => cases todo <;> simp [initializeServer, hphase] at h
  | electing run => cases run <;> simp [initializeServer, hphase] at h
  | _ => simp [initializeServer, hphase] at h

/-- Only arriving calls and recoveries hand anything over. -/
theorem handingOver_eq_none {server : Addr} {step : InitializeStep}
    (h : ∀ index, step ≠ .addPaxosLog index) :
    c.handingOver (.initializeServer server step) = none := by
  cases step with
  | addPaxosLog index => exact absurd rfl (h index)
  | _ => rfl

/-- The other steps of a start-up leave the logs of all servers. -/
theorem initializeServer_logs {server : Addr} {step : InitializeStep}
    (hstep : ∀ index, step ≠ .addPaxosLog index)
    (h : StepCases c (.initializeServer server step) c') (a : Addr) (key : String) (r : Int) :
    (c'.system.servers a).kvDb.paxosLog key r = (c.system.servers a).kvDb.paxosLog key r := by
  have hset : ∀ {service : MultiPaxosServiceImpl},
      (∀ key r, service.kvDb.paxosLog key r =
        (c.system.servers server).kvDb.paxosLog key r) →
      (Function.update c.system.servers server service a).kvDb.paxosLog key r =
        (c.system.servers a).kvDb.paxosLog key r := by
    intro service hsame
    by_cases ha : a = server
    · subst ha
      rw [Function.update_self]
      exact hsame key r
    · rw [Function.update_of_ne ha]
  cases h with
  | discovered hphase hname hlive => exact hset fun _ _ => rfl
  | elect hphase hlisted =>
    have hlogs := (start_cases c.system (c.system.servers server).myPaxosAddress
      (ownElection (c.system.servers server)) {}).logs a key r
    exact hlogs
  | setValue hphase hindex => exact hset fun _ _ => rfl
  | @addPaxosLog _ index _ _ _ _ hphase hindex => exact absurd rfl (hstep index)
  | _ => rfl

/-- What is accepted after a step that is no crash: what the step handed over
for the slot, and what was accepted before for all others. -/
theorem Origins.acceptedAt_step (h : Origins c) (hstep : c.step act = some c')
    (hact : ∀ a, act ≠ .crash a) (a : Addr) (key : String) (r : Int) :
    c'.acceptedAt a key r =
      match c.handingOver act with
      | some (a', key', r', new) =>
          if a = a' ∧ key = key' ∧ r = r' then new else c.acceptedAt a key r
      | none => c.acceptedAt a key r := by
  cases act with
  | paxos act =>
    cases step_cases hstep with
    | @paxos _ σ hpermits hpaxos =>
      show PaxosLog.accepted ((σ.servers a).kvDb.paxosLog key r) = _
      rw [(System.step_cases hpaxos).logs]
      simp only [handingOver]
      cases harriving : c.system.arriving act with
      | none => rfl
      | some arrival =>
        obtain ⟨receiver, call⟩ := arrival
        simp only [Option.bind_some]
        by_cases ha : a = receiver
        · subst ha
          obtain ⟨i, inv, hrun, hsends⟩ := h.provenance.arriving_sends harriving
          have hnone : (c.system.servers a).NoPromise := (h.provenance.db a).promised
          rw [if_pos rfl, hnone.accepted_handle call (h.provenance.isPositive hrun hsends)]
          cases call.writes with
          | none => rfl
          | some write => simp [acceptedAt]
        · rw [if_neg ha]
          cases call.writes with
          | none => rfl
          | some write => simp [acceptedAt, ha]
  | electNewCoordinator server context =>
    cases step_cases hstep with
    | electNewCoordinator hlisted =>
      have hlogs := (start_cases c.system (c.system.servers server).myPaxosAddress
        (ownElection (c.system.servers server)) context).logs a key r
      exact congrArg PaxosLog.accepted hlogs
  | initializeServer server step =>
    by_cases hadd : ∃ index, step = .addPaxosLog index
    · obtain ⟨index, rfl⟩ := hadd
      obtain ⟨key', r', log, hhanding, hservers⟩ := step_addPaxosLog hstep
      rw [hhanding, acceptedAt, hservers]
      by_cases ha : a = server
      · subst ha
        rw [Function.update_self]
        simp only [KeyValueDataBase.addPaxosLogRecovered, KeyValueDataBase.paxosLog_updateLog,
          true_and]
        split
        · rfl
        · rfl
      · rw [Function.update_of_ne ha]
        simp [ha, acceptedAt]
    · have hother : ∀ index, step ≠ .addPaxosLog index := fun index heq => hadd ⟨index, heq⟩
      rw [handingOver_eq_none hother, acceptedAt,
        initializeServer_logs hother (step_cases hstep)]
      rfl
  | crash server => exact absurd rfl (hact server)

/-- No identifier is above 1. -/
theorem Origins.acceptedId_le (h : Origins c) (a : Addr) (key : String) (r : Int) :
    ((c.system.servers a).kvDb.paxosLog key r).acceptedId ≤ 1 := by
  have hid := (h.provenance.db a).accepted key r
  have hdb : (c.system.db a).paxosLog key r = (c.system.servers a).kvDb.paxosLog key r := rfl
  rw [hdb] at hid
  omega

/-- A step that is no crash keeps the acceptances exactly when it hands over
nothing else for a slot that has one. -/
theorem Origins.acceptancesKept_iff (h : Origins c) (h' : Origins c')
    (hstep : c.step act = some c') (hact : ∀ a, act ≠ .crash a) :
    AcceptancesKept c c' ↔ c.Compatible act := by
  have hkept : ∀ a key r, ((c.system.servers a).kvDb.paxosLog key r).KeptBy
      ((c'.system.servers a).kvDb.paxosLog key r) ↔
        ∀ op, c.acceptedAt a key r = some op → c'.acceptedAt a key r = some op :=
    fun a key r => PaxosLog.keptBy_iff (h.acceptedId_le a key r) (h'.acceptedId_le a key r)
  constructor
  · intro hall a key r new hnew old hold
    have hsame := (hkept a key r).mp (hall a key r) old hold
    rw [h.acceptedAt_step hstep hact, hnew] at hsame
    simpa using hsame
  · intro hcompatible a key r
    refine (hkept a key r).mpr fun old hold => ?_
    rw [h.acceptedAt_step hstep hact]
    cases hhanding : c.handingOver act with
    | none => exact hold
    | some handed =>
      obtain ⟨a', key', r', new⟩ := handed
      simp only
      split
      · rename_i heq
        obtain ⟨rfl, rfl, rfl⟩ := heq
        exact hcompatible _ _ _ new hhanding old hold
      · exact hold

end Cluster

/-! ## One proposer of its own operation for a slot -/

namespace Invocation

variable {inv : Invocation}

/-- It proposes the operation of its own request. -/
def ProposesOwn (inv : Invocation) : Prop :=
  inv.Proposed ∧ inv.acceptedId = 0

instance (inv : Invocation) : Decidable inv.ProposesOwn :=
  inferInstanceAs (Decidable (_ ∧ _))

/-- It has the promises to propose the operation of its own request. -/
def CanProposeOwn (inv : Invocation) : Prop :=
  inv.phase = .prepare [] ∧ inv.numOfAcceptors / 2 < inv.numOfPromised ∧ inv.acceptedId = 0

instance (inv : Invocation) : Decidable inv.CanProposeOwn :=
  inferInstanceAs (Decidable (_ ∧ _ ∧ _))

/-- No call takes an invocation to its `Propose` loop. -/
theorem Calls.proposed_of_receive {addr : Addr} {msg : Message} (h : inv.Calls addr msg)
    {answer : Option Reply} (hproposed : (inv.receive addr answer).Proposed) :
    inv.Proposed := by
  have hphase : (inv.receive addr answer).phase = inv.phase.tail := rfl
  unfold Proposed at hproposed ⊢
  rw [hphase] at hproposed
  cases h <;> rename_i hcurrent <;> simp_all [Phase.tail]

/-- An invocation starts to propose at the end of its `Prepare` loop. -/
theorem Advances.proposed {inv' : Invocation} (hwf : inv.Wf) (h : inv.Advances inv')
    (hproposed : inv'.Proposed) :
    inv.Proposed ∨ inv.phase = .prepare [] ∧ inv.numOfAcceptors / 2 < inv.numOfPromised ∧
      inv'.acceptedId = inv.acceptedId := by
  cases h with
  | noneLive message hphase hlive =>
    have hlt : inv.numOfAcceptors / 2 < inv.numOfPromised := hproposed
    have hprogress := hwf.progress
    rw [Progress, hphase] at hprogress
    rw [hwf.countPromised, hprogress.2.1, List.length_nil] at hlt
    omega
  | startPrepare hphase hlive => exact hproposed.elim
  | failedQuorum message hphase hcount =>
    have hlt : inv.numOfAcceptors / 2 < inv.numOfPromised := hproposed
    omega
  | startPropose hphase hcount => exact Or.inr ⟨hphase, hcount, rfl⟩
  | failedConsensus message hphase hcount => exact Or.inl (by simp [Proposed, hphase])
  | startInform hphase hcount => exact Or.inl (by simp [Proposed, hphase])
  | done hphase => exact Or.inl (by simp [Proposed, hphase])

end Invocation

namespace System

variable {σ σ' : System} {act : PaxosKVStore.Action}

/-- Two invocations that propose the operation of their own request for one
slot propose the same operation. -/
def OneProposer (σ : System) : Prop :=
  ∀ (i j : Nat) (inv inv' : Invocation), σ.runs[i]? = some inv → σ.runs[j]? = some inv' →
    inv'.key = inv.key → inv'.round = inv.round → inv.ProposesOwn → inv'.ProposesOwn →
    inv'.request.setProposeValue = inv.request.setProposeValue

/-- The invocation `run` goes on to propose the operation of its own request,
and another one has proposed a different operation of its own for the slot. -/
def Disputes (σ : System) (run : Nat) (inv : Invocation) : Prop :=
  inv.CanProposeOwn ∧ ∃ other ∈ σ.runs.eraseIdx run,
    other.key = inv.key ∧ other.round = inv.round ∧ other.ProposesOwn ∧
      other.request.setProposeValue ≠ inv.request.setProposeValue

instance (σ : System) (run : Nat) (inv : Invocation) : Decidable (σ.Disputes run inv) :=
  inferInstanceAs (Decidable (_ ∧ ∃ _ ∈ _, _))

/-- An invocation that proposes the operation of its own request did so before
the step, or the step takes it to its `Propose` loop. -/
theorem StepCases.proposesOwn_back (hwf : WfRuns σ) (hstep : StepCases σ act σ') {i : Nat}
    {inv' : Invocation} (hi : σ'.runs[i]? = some inv') (hown : inv'.ProposesOwn) :
    ∃ inv, σ.runs[i]? = some inv ∧ inv'.key = inv.key ∧ inv'.round = inv.round ∧
      inv'.request = inv.request ∧
      (inv.ProposesOwn ∨ act = .advance i ∧ inv.CanProposeOwn) := by
  rcases step_runs_back hwf hstep hi with
    ⟨inv, hold, hevolves⟩ | ⟨server, request, context, _, _, _, rfl⟩
  · refine ⟨inv, hold, hevolves.key, hevolves.round, hevolves.request, ?_⟩
    have hbefore : inv.Proposed → inv.ProposesOwn := by
      intro hproposed
      obtain ⟨_, hid, _⟩ := hevolves.proposed hproposed
      exact ⟨hproposed, hid ▸ hown.2⟩
    cases hstep with
    | refuse hrefusal =>
      have hsame : σ.runs[i]? = some inv' := hi
      rw [hold] at hsame
      cases hsame
      exact Or.inl hown
    | enter hrefusal =>
      have hsame : (σ.runs ++ [_])[i]? = some inv' := hi
      rw [getElem?_snoc_of_some hold] at hsame
      cases hsame
      exact Or.inl hown
    | @call run inv0 receiver msg fate randomFail hrun hcall =>
      rw [call_runs] at hi
      rcases getElem?_set_cases hrun hi with ⟨rfl, rfl⟩ | ⟨_, hi⟩
      · rw [hrun] at hold
        cases hold
        exact Or.inl (hbefore (hcall.proposed_of_receive hown.1))
      · rw [hold] at hi
        cases hi
        exact Or.inl hown
    | @advance run inv0 inv1 hrun hadvance =>
      rw [noteReturn_runs] at hi
      rcases getElem?_set_cases hrun hi with ⟨rfl, rfl⟩ | ⟨_, hi⟩
      · rw [hrun] at hold
        cases hold
        rcases hadvance.proposed (hwf _ _ hrun) hown.1 with hproposed | ⟨hphase, hcount, hid⟩
        · exact Or.inl (hbefore hproposed)
        · exact Or.inr ⟨rfl, hphase, hcount, hid ▸ hown.2⟩
      · rw [hold] at hi
        cases hi
        exact Or.inl hown
    | arrive context randomFail hindex =>
      have hsame : σ.runs[i]? = some inv' := hi
      rw [hold] at hsame
      cases hsame
      exact Or.inl hown
  · exact hown.1.elim

/-- A step that does not dispute a slot leaves it one proposer. -/
theorem OneProposer.step (h : σ.OneProposer) (hwf : WfRuns σ) (hstep : StepCases σ act σ')
    (hundisputed : ∀ run, act = .advance run →
      ∀ inv ∈ σ.runs[run]?, ¬ σ.Disputes run inv) : σ'.OneProposer := by
  intro i j inv' inv1' hi hj hkey hround hown hown1
  obtain ⟨inv, hold, hk, hr, hrequest, hcase⟩ := hstep.proposesOwn_back hwf hi hown
  obtain ⟨inv1, hold1, hk1, hr1, hrequest1, hcase1⟩ := hstep.proposesOwn_back hwf hj hown1
  rw [hk, hk1] at hkey
  rw [hr, hr1] at hround
  rw [hrequest, hrequest1]
  by_cases hij : i = j
  · subst hij
    rw [hold] at hold1
    cases hold1
    rfl
  · rcases hcase with hbefore | ⟨hact, hcan⟩
    · rcases hcase1 with hbefore1 | ⟨hact1, hcan1⟩
      · exact h i j inv inv1 hold hold1 hkey hround hbefore hbefore1
      · -- `j` would be the second one
        by_contra hne
        refine hundisputed j hact1 inv1 hold1 ⟨hcan1, inv, ?_, hkey.symm, hround.symm, hbefore,
          fun heq => hne heq.symm⟩
        exact List.mem_eraseIdx_iff_getElem?.mpr ⟨i, hij, hold⟩
    · rcases hcase1 with hbefore1 | ⟨hact1, hcan1⟩
      · by_contra hne
        refine hundisputed i hact inv hold ⟨hcan, inv1, ?_, hkey, hround, hbefore1, hne⟩
        exact List.mem_eraseIdx_iff_getElem?.mpr ⟨j, Ne.symm hij, hold1⟩
      · rw [hact] at hact1
        cases hact1
        exact absurd rfl hij

theorem OneProposer.start (h : σ.OneProposer) (hwf : WfRuns σ) (server : Addr)
    (request : Request) (context : ServerContext) :
    (σ.start server request context).OneProposer := by
  have hstep : StepCases σ (.start server request context) (σ.start server request context) :=
    step_cases rfl
  refine h.step hwf hstep fun run hact => ?_
  cases hact

/-- With one proposer, all proposals for a slot are of one operation. -/
theorem OneProposer.unique (h : σ.OneProposer) {key : String} {r : Int} {op op' : Operation}
    (hfrom : σ.ProposalFrom key r op) (hfrom' : σ.ProposalFrom key r op') : op' = op := by
  obtain ⟨i, inv, hi, rfl, rfl, hproposed, hid, rfl⟩ := hfrom
  obtain ⟨j, inv', hj, hkey, hround, hproposed', hid', rfl⟩ := hfrom'
  exact h i j inv inv' hi hj hkey hround ⟨hproposed, hid⟩ ⟨hproposed', hid'⟩

end System

namespace Cluster

variable {c c' : Cluster} {act : Action}

/-- The step does not start to propose a second operation for a slot, and
writes no recovered log without an acceptance over one that has an acceptance. -/
def Undisputed (c : Cluster) : Action → Prop
  | .paxos (.advance run) => ∀ inv ∈ c.system.runs[run]?, ¬ c.system.Disputes run inv
  | .initializeServer server (.addPaxosLog index) =>
      ∀ handed ∈ c.handingOver (.initializeServer server (.addPaxosLog index)),
        handed.2.2.2 = none → c.acceptedAt handed.1 handed.2.1 handed.2.2.1 = none
  | _ => True

instance (c : Cluster) : ∀ act, Decidable (c.Undisputed act)
  | .paxos (.advance run) =>
      inferInstanceAs (Decidable (∀ inv ∈ c.system.runs[run]?, ¬ c.system.Disputes run inv))
  | .initializeServer server (.addPaxosLog index) =>
      inferInstanceAs (Decidable
        (∀ handed ∈ c.handingOver (.initializeServer server (.addPaxosLog index)),
          handed.2.2.2 = none → c.acceptedAt handed.1 handed.2.1 handed.2.2.1 = none))
  | .paxos (.start ..) => isTrue trivial
  | .paxos (.call ..) => isTrue trivial
  | .paxos (.arrive ..) => isTrue trivial
  | .initializeServer _ .start => isTrue trivial
  | .initializeServer _ (.ask _) => isTrue trivial
  | .initializeServer _ .discovered => isTrue trivial
  | .initializeServer _ .elect => isTrue trivial
  | .initializeServer _ .elected => isTrue trivial
  | .initializeServer _ .copyDataMap => isTrue trivial
  | .initializeServer _ .copyPaxosLogs => isTrue trivial
  | .initializeServer _ (.setValue _) => isTrue trivial
  | .initializeServer _ .finish => isTrue trivial
  | .initializeServer _ (.fail _) => isTrue trivial
  | .electNewCoordinator .. => isTrue trivial
  | .crash _ => isTrue trivial

/-- A call writes the proposal of its invocation. -/
theorem sends_writes {inv : Invocation} {call : AcceptorCall} (hwf : inv.Wf)
    (hsends : inv.Sends call.msg) {key : String} {r : Int} {op : Operation}
    (hwrites : call.writes = some (key, r, op)) :
    inv.Proposed ∧ key = inv.key ∧ r = inv.round ∧ op = inv.proposal := by
  obtain ⟨⟨isCancelled⟩, randomFail, msg⟩ := call
  cases isCancelled with
  | true => cases hwrites
  | false =>
    cases msg with
    | ping => cases hwrites
    | prepare request => cases hwrites
    | propose request =>
      obtain ⟨hproposed, rfl⟩ := hsends
      simp only [AcceptorCall.writes, Bool.false_eq_true, if_false] at hwrites
      split at hwrites
      · cases hwrites
      · cases hwrites
        exact ⟨hproposed, rfl, rfl, rfl⟩
    | inform request =>
      obtain ⟨hcommitted, rfl⟩ := hsends
      cases hwrites
      rw [Invocation.informReq, (hwf.committed hcommitted).2.2]
      exact ⟨hwf.proposed_of_committed hcommitted, rfl, rfl, rfl⟩

/-- What is accepted was proposed for its slot. -/
theorem Origins.acceptedAt_from (h : Origins c) {a : Addr} {key : String} {r : Int}
    {op : Operation} (hop : c.acceptedAt a key r = some op) :
    c.system.ProposalFrom key r op := by
  obtain ⟨hpos, rfl⟩ := PaxosLog.accepted_eq_some_iff.mp hop
  rcases (h.provenance.db a).accepted key r with hzero | ⟨_, hfrom⟩
  · have hid : ((c.system.servers a).kvDb.paxosLog key r).acceptedId = 0 := hzero
    omega
  · exact hfrom

/-- What a step hands over was proposed for its slot, by whoever sent it or
wrote it into the log that was copied. -/
theorem Origins.handingOver_from (h : Origins c) {a : Addr} {key : String} {r : Int}
    {op : Operation} (hhanding : c.handingOver act = some (a, key, r, some op)) :
    c.system.ProposalFrom key r op := by
  unfold handingOver at hhanding
  split at hhanding
  · obtain ⟨⟨receiver, call⟩, harriving, hmap⟩ := Option.bind_eq_some_iff.mp hhanding
    obtain ⟨⟨key', r', op'⟩, hwrites, heq⟩ := Option.map_eq_some_iff.mp hmap
    cases heq
    obtain ⟨i, inv, hrun, hsends⟩ := h.provenance.arriving_sends harriving
    obtain ⟨hproposed, rfl, rfl, rfl⟩ :=
      sends_writes (h.provenance.wf i inv hrun) hsends hwrites
    exact System.proposalFrom_proposal hrun (h.provenance.adopted i inv hrun) hproposed
  · rename_i server index
    have hsnapshot := h.snapshots server
    split at hhanding
    · rename_i kvMap paxosLogs hphase
      obtain ⟨⟨key', r', log⟩, hindex, heq⟩ := Option.map_eq_some_iff.mp hhanding
      simp only [Prod.mk.injEq] at heq
      obtain ⟨rfl, rfl, rfl, hop⟩ := heq
      obtain ⟨hpos, rfl⟩ := PaxosLog.accepted_eq_some_iff.mp hop
      rw [hphase] at hsnapshot
      rcases (hsnapshot _ _ _ (List.mem_of_getElem? hindex)).accepted with hzero | ⟨_, hfrom⟩
      · omega
      · exact hfrom
    · cases hhanding
  · cases hhanding

/-- Arriving calls hand over an operation. -/
theorem handingOver_paxos {act : PaxosKVStore.Action} {a : Addr} {key : String} {r : Int}
    {new : Option Operation} (h : c.handingOver (.paxos act) = some (a, key, r, new)) :
    ∃ op, new = some op := by
  rw [handingOver] at h
  obtain ⟨arrival, _, hmap⟩ := Option.bind_eq_some_iff.mp h
  obtain ⟨write, _, heq⟩ := Option.map_eq_some_iff.mp hmap
  cases heq
  exact ⟨_, rfl⟩

/-- What is handed over without an acceptance meets none. -/
theorem Undisputed.handingOver_none (h : c.Undisputed act) {a : Addr} {key : String} {r : Int}
    (hhanding : c.handingOver act = some (a, key, r, none)) : c.acceptedAt a key r = none := by
  cases act with
  | paxos act =>
    obtain ⟨op, heq⟩ := handingOver_paxos hhanding
    cases heq
  | initializeServer server step =>
    by_cases hadd : ∃ index, step = .addPaxosLog index
    · obtain ⟨index, rfl⟩ := hadd
      rw [Undisputed] at h
      exact h (a, key, r, none) hhanding rfl
    · rw [handingOver_eq_none fun index heq => hadd ⟨index, heq⟩] at hhanding
      cases hhanding
  | electNewCoordinator server context => cases hhanding
  | crash server => cases hhanding

/-- With one proposer for each slot, the steps are compatible. -/
theorem Origins.compatible (h : Origins c) (hone : c.system.OneProposer)
    (hundisputed : c.Undisputed act) : c.Compatible act := by
  intro a key r new hhanding old hold
  cases new with
  | none =>
    rw [hundisputed.handingOver_none hhanding] at hold
    cases hold
  | some op =>
    have hfrom := h.handingOver_from hhanding
    exact congrArg some (hone.unique (h.acceptedAt_from hold) hfrom)

/-- In a run that disputes no slot, each slot has one proposer. -/
theorem oneProposer_of_reachable {setup : System → Prop} {C : Cluster → Action → Prop}
    (hC : ∀ c act, C c act → c.Undisputed act) (h : (cluster setup).Reachable C c) :
    c.system.OneProposer := by
  refine ActionSystem.Reachable.invariant (I := fun c => c.system.OneProposer) ?_ ?_ h
  · intro c hinit i j inv inv' hi
    simp [hinit.1.system.runs] at hi
  · intro c act c' hreach hcond hstep hone
    have hwf := (origins_of_reachable hreach).provenance.wf
    have hundisputed := hC c act hcond
    cases step_cases hstep with
    | @paxos act σ hpermits hpaxos =>
      refine hone.step hwf (System.step_cases hpaxos) fun run hact => ?_
      rw [hact] at hundisputed
      exact hundisputed
    | electNewCoordinator hlisted => exact hone.start hwf _ _ _
    | elect hphase hlisted => exact hone.start hwf _ _ _
    | _ => exact hone

/-- In every reachable state, a step that is no crash keeps the acceptances
exactly when it hands over nothing else for a slot that has one.  In a run that
disputes no slot, every step does. -/
theorem acceptancesKept {setup : System → Prop} {C : Cluster → Action → Prop}
    (h : (cluster setup).Reachable C c) :
    (∀ act c', c.step act = some c' → (∀ a, act ≠ .crash a) →
      (AcceptancesKept c c' ↔ c.Compatible act)) ∧
    ((∀ c act, C c act → c.Undisputed act) → ∀ act c', C c act → c.step act = some c' →
      (∀ a, act ≠ .crash a) → AcceptancesKept c c') := by
  have horigins := origins_of_reachable h
  have hkept : ∀ act c', c.step act = some c' → (∀ a, act ≠ .crash a) →
      (AcceptancesKept c c' ↔ c.Compatible act) := by
    intro act c' hstep hact
    have hall : (cluster setup).Reachable (fun _ _ => True) c := h.mono fun _ _ _ => trivial
    have horigins' : Origins c' := origins_of_reachable (hall.next trivial hstep)
    exact horigins.acceptancesKept_iff horigins' hstep hact
  refine ⟨hkept, fun hC act c' hcond hstep hact => ?_⟩
  have hone := oneProposer_of_reachable hC h
  exact (hkept act c' hstep hact).mpr (horigins.compatible hone (hC c act hcond))

/-- Two `PutPair` requests with round 1.  `a` has accepted the first one
before it promises the second one. -/
def handedOnPut : List Action :=
  [.paxos (.start "a" (.put "k" "x")), .paxos (.start "b" (.put "k" "y"))] ++
  (PaxosKVStore.Action.loop 0 2 ++ PaxosKVStore.Action.loop 1 2 ++
    PaxosKVStore.Action.loop 0 2 ++ PaxosKVStore.Action.calls 0 1 ++
    PaxosKVStore.Action.loop 1 2).map .paxos

set_option maxRecDepth 20000 in
/-- The second invocation proposes what `a` has accepted. -/
theorem acceptancesKept_handedOnPut :
    ∃ c c' : Cluster, c.step (.paxos (.call 1 .delivered false)) = some c' ∧
      c.acceptedAt "a" "k" 1 = some { type := .set, value := "x" } ∧
      c.handingOver (.paxos (.call 1 .delivered false)) =
        some ("a", "k", 1, some { type := .set, value := "x" }) ∧ AcceptancesKept c c' := by
  have hrun : ∃ c ∈ (cluster (System.SharesReplicas (.ofReplicas ["a", "b"]))).execWhere
      Undisputed (fresh ["a", "b"]) handedOnPut,
      (c.step (.paxos (.call 1 .delivered false))).isSome ∧
      c.acceptedAt "a" "k" 1 = some { type := .set, value := "x" } ∧
      c.handingOver (.paxos (.call 1 .delivered false)) =
        some ("a", "k", 1, some { type := .set, value := "x" }) := by
    decide +kernel
  obtain ⟨c, hreach, hsome, haccepted, hhanding⟩ := exists_reachable_fresh hrun
  obtain ⟨c', hstep⟩ := Option.isSome_iff_exists.mp hsome
  refine ⟨c, c', hstep, haccepted, hhanding, ?_⟩
  refine (acceptancesKept hreach).2 (fun _ _ h => h) (.paxos (.call 1 .delivered false)) c'
    trivial hstep fun a h => ?_
  cases h

/-- Two `PutPair` requests with round 1.  Both have their promises before `a`
accepts the first one. -/
def replacedPut : List Action :=
  [.paxos (.start "a" (.put "k" "x")), .paxos (.start "b" (.put "k" "y"))] ++
  (PaxosKVStore.Action.loop 0 2 ++ PaxosKVStore.Action.loop 1 2 ++
    PaxosKVStore.Action.loop 0 2 ++ PaxosKVStore.Action.loop 1 2 ++
    PaxosKVStore.Action.calls 0 1).map .paxos

set_option maxRecDepth 20000 in
/-- The acceptance of the first one is replaced under the same identifier. -/
theorem not_acceptancesKept_replacedPut :
    ∃ c c' : Cluster, (cluster (System.SharesReplicas (.ofReplicas ["a", "b"]))).Reachable
      (fun _ _ => True) c ∧ c.step (.paxos (.call 1 .delivered false)) = some c' ∧
      ¬ AcceptancesKept c c' := by
  have hrun : ∃ c ∈ (cluster (System.SharesReplicas (.ofReplicas ["a", "b"]))).execWhere
      (fun _ _ => True) (fresh ["a", "b"]) replacedPut,
      ∃ c' ∈ c.step (.paxos (.call 1 .delivered false)),
      ((c.system.servers "a").kvDb.paxosLog "k" 1).acceptedId = 1 ∧
      ((c.system.servers "a").kvDb.paxosLog "k" 1).operation = { type := .set, value := "x" } ∧
      ((c'.system.servers "a").kvDb.paxosLog "k" 1).acceptedId = 1 ∧
      ((c'.system.servers "a").kvDb.paxosLog "k" 1).operation =
        { type := .set, value := "y" } := by
    decide +kernel
  obtain ⟨c, hreach, c', hstep, hid, hop, hid', hop'⟩ := exists_reachable_fresh hrun
  refine ⟨c, c', hreach, hstep, fun hkept => ?_⟩
  rcases hkept "a" "k" 1 (by omega) with ⟨_, hsame⟩ | hlt
  · rw [hop, hop'] at hsame
    exact absurd hsame (by decide)
  · omega

end Cluster

end PaxosKVStore
