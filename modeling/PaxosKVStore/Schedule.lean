import PaxosKVStore.Lib.Simulation
import PaxosKVStore.Solo

/-!
# `runPaxos` is a schedule of the interleaved system

Between servers that handle requests one at a time, `RunPaxos` is the function
`runPaxos`.  In the system of all interleavings it is an invocation that moves
step by step.  `exists_reachable_runPaxos` connects the two: from every
reachable state, letting one new invocation run to its end leads to the
servers and the status that `runPaxos` computes.

A call whose reply is lost is handled at once in this schedule, by an `arrive`
right after it.
-/

namespace PaxosKVStore

/-- The loop bodies do not look at the phase. -/
theorem Invocation.receive_phase (inv : Invocation) (p : Phase) (a : Addr)
    (answer : Option Reply) :
    { inv with phase := p }.receive a answer =
      { inv.receive a answer with phase := p.tail } := by
  cases answer with
  | none => rfl
  | some reply =>
    cases reply with
    | ping status => cases h : status.ok <;> simp [receive, pinged, h]
    | prepare status response =>
      cases h : status.ok <;> simp only [receive, promised, h]
      · rfl
      · by_cases hlt : inv.acceptedId < response.acceptedId <;> simp [hlt]
    | propose status response => cases h : status.ok <;> simp [receive, accepted, h]
    | inform status => rfl

/-- The four loops of `RunPaxos`. -/
inductive Loop where
  | ping
  | prepare
  | propose
  | inform

namespace Loop

/-- An invocation in the loop. -/
def phase : Loop → List Addr → Phase
  | .ping => .ping
  | .prepare => .prepare
  | .propose => .propose
  | .inform => .inform

/-- What the loop asks the replicas. -/
def msg : Loop → Invocation → Message
  | .ping, _ => .ping
  | .prepare, inv => .prepare inv.prepareReq
  | .propose, inv => .propose inv.proposeReq
  | .inform, inv => .inform inv.informReq

variable (loop : Loop) (inv : Invocation) (a : Addr) (todo : List Addr)

theorem tail_phase : (loop.phase (a :: todo)).tail = loop.phase todo := by
  cases loop <;> rfl

theorem calls : { inv with phase := loop.phase (a :: todo) }.Calls a (loop.msg inv) := by
  cases loop with
  | ping => exact .ping rfl
  | prepare => exact .prepare rfl
  | propose => exact .propose rfl
  | inform => exact .inform rfl

/-- The answers to a loop do not change what it asks. -/
theorem msg_receive {answer : Option Reply} (hanswer : Invocation.Answers (loop.msg inv) answer) :
    loop.msg (inv.receive a answer) = loop.msg inv := by
  have hevolves := Invocation.Evolves.receives
    (Invocation.receives_of_calls (loop.calls inv a []) hanswer)
  rw [Invocation.receive_phase] at hevolves
  have hkey : (inv.receive a answer).key = inv.key := hevolves.key
  have hround : (inv.receive a answer).round = inv.round := hevolves.round
  have hid : (inv.receive a answer).proposeId = inv.proposeId := hevolves.proposeId
  cases loop with
  | ping => rfl
  | prepare => simp only [msg, Invocation.prepareReq, hkey, hround, hid]
  | propose =>
    have hproposal : (inv.receive a answer).proposal = inv.proposal :=
      (hevolves.proposed trivial).2.2
    simp only [msg, Invocation.proposeReq, hkey, hround, hid, hproposal]
  | inform =>
    have hacceptance : (inv.receive a answer).acceptance = inv.acceptance :=
      (hevolves.committed trivial).2
    simp only [msg, Invocation.informReq, hkey, hacceptance]

end Loop

/-- The answer of a call is one that its receiver can give. -/
theorem Outcomes.answers_exchange (o : Outcomes) (msg : Message) (a : Addr)
    (s : MultiPaxosServiceImpl) : Invocation.Answers msg (o.exchange msg a s).1 := by
  intro reply hreply
  exact ⟨s, {}, o.randomFail msg a, Solo.answer_of_exchange hreply⟩

namespace System

/-- A step of the invocation `run`, or the arrival of a call. -/
def OfRun (run : Nat) : Action → Prop
  | .start .. => False
  | .call i _ _ => i = run
  | .advance i => i = run
  | .arrive .. => True

variable {setup : System → Prop} {σ : System} {runs : List Invocation} {inv : Invocation}

theorem reachable_of_step {σ' : System} {act : Action}
    (hreach : (paxos setup).Reachable Unrestricted σ) (hstep : σ.step act = some σ') :
    (paxos setup).Reachable Unrestricted σ' :=
  hreach.next trivial hstep

theorem leads_step {σ' : System} {run : Nat} {act : Action} (hstep : σ.step act = some σ')
    (hown : OfRun run act) : (paxos setup).Leads (OfRun run) σ σ' :=
  .of_step hown hstep

/-- A call of an invocation, with what becomes of it. -/
theorem leads_exchange (o : Outcomes) {a : Addr} {msg : Message}
    (hruns : σ.runs = runs ++ [inv]) (hcall : inv.Calls a msg) :
    ∃ σ', (paxos setup).Leads (OfRun runs.length) σ σ' ∧
      σ'.runs = runs ++ [inv.receive a (o.exchange msg a (σ.servers a)).1] ∧
      σ'.servers = Function.update σ.servers a (o.exchange msg a (σ.servers a)).2 ∧
      σ'.inFlight = σ.inFlight := by
  have hstep : σ.step (.call runs.length (o.fate msg a) (o.randomFail msg a)) =
      some (σ.call runs.length inv a msg (o.fate msg a) (o.randomFail msg a)) := by
    simp [step, hruns, Invocation.nextCall_of_calls hcall]
  have hcalled : (paxos setup).Leads (OfRun runs.length) σ
      (σ.call runs.length inv a msg (o.fate msg a) (o.randomFail msg a)) :=
    leads_step hstep rfl
  cases hfate : o.fate msg a with
  | delivered =>
    rw [hfate] at hcalled
    refine ⟨_, hcalled, ?_, ?_, rfl⟩
    · simp [call, setRun, deliver, send, hruns, Outcomes.exchange, hfate, answer]
    · simp [call, setRun, deliver, send, Outcomes.exchange, hfate]
  | lost =>
    rw [hfate] at hcalled
    refine ⟨_, hcalled, ?_, ?_, rfl⟩
    · simp [call, setRun, send, hruns, Outcomes.exchange, hfate]
    · simp [call, setRun, send, Outcomes.exchange, hfate]
  | replyLost =>
    rw [hfate] at hcalled
    -- the call is the last one in flight
    have harrive : (σ.call runs.length inv a msg .replyLost (o.randomFail msg a)).step
        (.arrive σ.inFlight.length {} (o.randomFail msg a)) =
        some
          { (σ.call runs.length inv a msg .replyLost (o.randomFail msg a)).deliver runs.length a
              msg {} (o.randomFail msg a) with
            inFlight := (σ.inFlight ++ [(runs.length, a, msg)]).eraseIdx σ.inFlight.length } := by
      simp [step, call, setRun, send]
    refine ⟨_, hcalled.trans (leads_step harrive trivial), ?_, ?_, ?_⟩
    · simp [call, setRun, deliver, send, hruns, Outcomes.exchange, hfate]
    · simp [call, setRun, deliver, send, Outcomes.exchange, hfate]
    · simp [List.eraseIdx_append_of_length_le]

/-- A loop of an invocation. -/
theorem leads_forEach (o : Outcomes) (loop : Loop) (todo : List Addr)
    (hruns : σ.runs = runs ++ [{ inv with phase := loop.phase todo }]) :
    ∃ σ', (paxos setup).Leads (OfRun runs.length) σ σ' ∧
      σ'.runs = runs ++
        [{ (forEach o (loop.msg inv) todo inv σ.servers).1 with phase := loop.phase [] }] ∧
      σ'.servers = (forEach o (loop.msg inv) todo inv σ.servers).2 ∧
      σ'.inFlight = σ.inFlight := by
  induction todo generalizing σ inv with
  | nil => exact ⟨σ, .refl σ, hruns, rfl, rfl⟩
  | cons a rest ih =>
    obtain ⟨σ₁, hleads₁, hruns₁, hservers₁, hflight₁⟩ :=
      leads_exchange o hruns (loop.calls inv a rest)
    rw [Invocation.receive_phase, loop.tail_phase] at hruns₁
    obtain ⟨σ', hleads', hruns', hservers', hflight'⟩ := ih hruns₁
    have hmsg : loop.msg (inv.receive a (o.exchange (loop.msg inv) a (σ.servers a)).1) =
        loop.msg inv :=
      loop.msg_receive inv a (o.answers_exchange _ a _)
    have hloop : forEach o (loop.msg inv) (a :: rest) inv σ.servers =
        forEach o (loop.msg inv) rest
          (inv.receive a (o.exchange (loop.msg inv) a (σ.servers a)).1)
          (Function.update σ.servers a (o.exchange (loop.msg inv) a (σ.servers a)).2) := rfl
    rw [hmsg, hservers₁] at hruns' hservers'
    refine ⟨σ', hleads₁.trans hleads', ?_, ?_, hflight'.trans hflight₁⟩
    · rw [hloop]
      exact hruns'
    · rw [hloop]
      exact hservers'

/-- A loop of an invocation, and the code after it. -/
theorem leads_loop {o : Outcomes} (loop : Loop) {todo : List Addr}
    {inv₁ inv' : Invocation} {servers servers₁ : Servers}
    (hruns : σ.runs = runs ++ [{ inv with phase := loop.phase todo }])
    (hservers : σ.servers = servers)
    (hloop : forEach o (loop.msg inv) todo inv servers = (inv₁, servers₁))
    (hadvance : { inv₁ with phase := loop.phase [] }.advance = some inv') :
    ∃ σ', (paxos setup).Leads (OfRun runs.length) σ σ' ∧ σ'.runs = runs ++ [inv'] ∧
      σ'.servers = servers₁ ∧ σ'.inFlight = σ.inFlight := by
  subst hservers
  obtain ⟨σ₁, hleads₁, hruns₁, hservers₁, hflight₁⟩ := leads_forEach o loop todo hruns
  rw [hloop] at hruns₁ hservers₁
  have hstep : σ₁.step (.advance runs.length) =
      some ((σ₁.setRun runs.length inv').noteReturn runs.length inv') := by
    simp [step, hruns₁, hadvance]
  refine ⟨_, hleads₁.trans (leads_step hstep rfl), ?_, ?_, ?_⟩
  · rw [noteReturn]
    split <;> simp [setRun, hruns₁]
  · refine Eq.trans ?_ hservers₁
    rw [noteReturn]
    split <;> rfl
  · refine Eq.trans ?_ hflight₁
    rw [noteReturn]
    split <;> rfl

/-- One new invocation, run to its end, leads to the servers and the status
of `runPaxos`. -/
theorem leads_runPaxos (o : Outcomes) (servers : Servers) {server : Addr} {request : Request}
    (hruns : σ.runs = runs ++ [Invocation.enter server (servers server) request])
    (hservers : σ.servers = entered servers server request) :
    ∃ σ' inv, (paxos setup).Leads (OfRun runs.length) σ σ' ∧ σ'.runs = runs ++ [inv] ∧
      inv.phase = .returned (runPaxos o servers server request).1 ∧
      σ'.servers = (runPaxos o servers server request).2 ∧ σ'.inFlight = σ.inFlight := by
  simp only [runPaxos]
  rcases hping : forEach o .ping (Invocation.enter server (servers server) request).paxosStubs
    (Invocation.enter server (servers server) request) (entered servers server request)
    with ⟨inv₁, servers₁⟩
  by_cases hlive : inv₁.livePaxosStubs = []
  · obtain ⟨σ', hleads', hruns', hservers', hflight'⟩ :=
      leads_loop .ping (by exact hruns) hservers hping (if_pos hlive)
    simp only [if_pos hlive]
    exact ⟨σ', _, hleads', hruns', rfl, hservers', hflight'⟩
  · obtain ⟨σ₁, hleads₁, hruns₁, hservers₁, hflight₁⟩ :=
      leads_loop .ping (by exact hruns) hservers hping (if_neg hlive)
    simp only [if_neg hlive]
    rcases hprepare : forEach o (.prepare inv₁.prepareReq) inv₁.livePaxosStubs inv₁ servers₁
      with ⟨inv₂, servers₂⟩
    by_cases hcount : inv₂.numOfPromised ≤ inv₂.numOfAcceptors / 2
    · obtain ⟨σ', hleads', hruns', hservers', hflight'⟩ :=
        leads_loop .prepare (by exact hruns₁) hservers₁ hprepare (if_pos hcount)
      simp only [if_pos hcount]
      exact ⟨σ', _, hleads₁.trans hleads', hruns', rfl, hservers', hflight'.trans hflight₁⟩
    · obtain ⟨σ₂, hleads₂, hruns₂, hservers₂, hflight₂⟩ :=
        leads_loop .prepare (by exact hruns₁) hservers₁ hprepare (if_neg hcount)
      simp only [if_neg hcount]
      have hleads₂ := hleads₁.trans hleads₂
      have hflight₂ := hflight₂.trans hflight₁
      rcases hpropose : forEach o (.propose inv₂.proposeReq) inv₂.livePaxosStubs inv₂ servers₂
        with ⟨inv₃, servers₃⟩
      by_cases hcount' : inv₃.numOfAccepted ≤ inv₃.numOfAcceptors / 2
      · obtain ⟨σ', hleads', hruns', hservers', hflight'⟩ :=
          leads_loop .propose (by exact hruns₂) hservers₂ hpropose (if_pos hcount')
        simp only [if_pos hcount']
        exact ⟨σ', _, hleads₂.trans hleads', hruns', rfl, hservers', hflight'.trans hflight₂⟩
      · obtain ⟨σ₃, hleads₃, hruns₃, hservers₃, hflight₃⟩ :=
          leads_loop .propose (by exact hruns₂) hservers₂ hpropose (if_neg hcount')
        simp only [if_neg hcount']
        rcases hinform : forEach o (.inform inv₃.informReq) inv₃.livePaxosStubs inv₃ servers₃
          with ⟨inv₄, servers₄⟩
        obtain ⟨σ', hleads', hruns', hservers', hflight'⟩ :=
          leads_loop .inform (by exact hruns₃) hservers₃ hinform rfl
        exact ⟨σ', _, (hleads₂.trans hleads₃).trans hleads', hruns', rfl, hservers',
          hflight'.trans (hflight₃.trans hflight₂)⟩

/-- No step changes whose an invocation is or what it was asked. -/
theorem step_keeps {σ' : System} {act : Action} {i : Nat} {inv : Invocation}
    (hstep : StepCases σ act σ') (hrun : σ.runs[i]? = some inv) :
    ∃ inv', σ'.runs[i]? = some inv' ∧ inv'.server = inv.server ∧ inv'.request = inv.request := by
  have hset : ∀ {run : Nat} {old new : Invocation}, σ.runs[run]? = some old →
      new.server = old.server ∧ new.request = old.request →
      ∃ inv', (σ.runs.set run new)[i]? = some inv' ∧ inv'.server = inv.server ∧
        inv'.request = inv.request := by
    intro run old new hold hsame
    by_cases hi : i = run
    · subst hi
      rw [hrun] at hold
      cases hold
      exact ⟨new, getElem?_set_self' hrun, hsame⟩
    · exact ⟨inv, by rw [List.getElem?_set_ne (Ne.symm hi), hrun], rfl, rfl⟩
  cases hstep with
  | refuse hrefusal => exact ⟨inv, hrun, rfl, rfl⟩
  | enter hrefusal => exact ⟨inv, getElem?_snoc_of_some hrun, rfl, rfl⟩
  | call fate randomFail hold hcall =>
    have hevolves := σ.call_evolves hcall randomFail fate
    rw [call_runs]
    exact hset hold ⟨hevolves.server, hevolves.request⟩
  | advance hold hadvance =>
    rw [noteReturn_runs]
    exact hset hold (by cases hadvance <;> exact ⟨rfl, rfl⟩)
  | arrive context randomFail hindex => exact ⟨inv, hrun, rfl, rfl⟩

theorem leads_keeps {σ' : System} {own : Action → Prop} {i : Nat} {inv : Invocation}
    (hleads : (paxos setup).Leads own σ σ') (hrun : σ.runs[i]? = some inv) :
    ∃ inv', σ'.runs[i]? = some inv' ∧ inv'.server = inv.server ∧ inv'.request = inv.request := by
  refine hleads.invariant (I := fun τ => ∃ inv', τ.runs[i]? = some inv' ∧
    inv'.server = inv.server ∧ inv'.request = inv.request) ?_ ⟨inv, hrun, rfl, rfl⟩
  rintro τ act τ' _ hstep ⟨inv', hrun', hserver, hrequest⟩
  obtain ⟨inv'', hrun'', hserver', hrequest'⟩ := step_keeps (step_cases hstep) hrun'
  exact ⟨inv'', hrun'', hserver'.trans hserver, hrequest'.trans hrequest⟩

/-- What `start` does when the request is not refused. -/
theorem start_eq (server : Addr) {request : Request} (hrefusal : request.refusal {} = none) :
    σ.start server request {} =
      { σ with
        servers := entered σ.servers server request
        runs := σ.runs ++ [Invocation.enter server (σ.servers server) request] } := by
  simp only [start, hrefusal]
  rfl

/-- So `runPaxos` is a schedule of every reachable state. -/
theorem exists_reachable_runPaxos (o : Outcomes) (server : Addr) {request : Request}
    (hreach : (paxos setup).Reachable Unrestricted σ) (hrefusal : request.refusal {} = none) :
    ∃ σ' inv, (paxos setup).Reachable Unrestricted σ' ∧ σ'.runs = σ.runs ++ [inv] ∧
      inv.phase = .returned (runPaxos o σ.servers server request).1 ∧
      σ'.servers = (runPaxos o σ.servers server request).2 := by
  have hstep : σ.step (.start server request) = some (σ.start server request {}) := rfl
  have hstart : (paxos setup).Reachable Unrestricted (σ.start server request {}) :=
    reachable_of_step hreach hstep
  have hentered := @start_eq σ server request hrefusal
  obtain ⟨σ', inv, hleads, hruns, hphase, hservers, _⟩ :=
    @leads_runPaxos setup (σ.start server request {}) σ.runs o σ.servers server request
      (by rw [hentered]) (by rw [hentered])
  exact ⟨σ', inv, hleads.reachable (fun _ _ _ => trivial) hstart, hruns, hphase, hservers⟩

end System

end PaxosKVStore
