import PaxosKVStore.History

/-!
# Delivered calls

`Delivers` says everything that a delivered call does to its invocation, with
the state of the acceptor that decides it: a promise carries the logged
acceptance, and an `Inform` is executed unless a higher round is logged.
`delivers_of_calls` is the inversion that the later invariants use, so none
of them looks at the handlers or the loop bodies again.

`Lossless` is the setting of a system whose servers share one replica list
and in which no call is lost: the live set of an invocation is then the whole
list.
-/

namespace PaxosKVStore

open MultiPaxosServiceImpl (Rejects)

namespace System

/-! ## What a delivered call does -/

inductive Delivers (σ : System) (inv : Invocation) (addr : Addr) (randomFail : Bool) :
    Message → Reply → Invocation → Prop where
  | ping {todo : List Addr} (hphase : inv.phase = .ping (addr :: todo)) :
      Delivers σ inv addr randomFail .ping (.ping Status.OK)
        { inv with
          phase := .ping todo
          livePaxosStubs := inv.livePaxosStubs ++ [addr] }
  | refuse {todo : List Addr} {status : Status} {response : PromiseResponse}
      (hphase : inv.phase = .prepare (addr :: todo)) (hno : status.ok = false)
      (hreject : Rejects inv.key randomFail) :
      Delivers σ inv addr randomFail (.prepare inv.prepareReq) (.prepare status response)
        { inv with phase := .prepare todo }
  | promise {todo : List Addr} {status : Status} {response : PromiseResponse}
      (hphase : inv.phase = .prepare (addr :: todo)) (hok : status.ok = true)
      (hreject : ¬ Rejects inv.key randomFail)
      (hlog : ((σ.db addr).paxosLog inv.key inv.round).acceptedId = 0)
      (hid : response.acceptedId = 0) :
      Delivers σ inv addr randomFail (.prepare inv.prepareReq) (.prepare status response)
        { inv with
          phase := .prepare todo
          numOfPromised := inv.numOfPromised + 1
          promisedBy := inv.promisedBy ++ [addr] }
  | adopt {todo : List Addr} {status : Status} {response : PromiseResponse}
      (hphase : inv.phase = .prepare (addr :: todo)) (hok : status.ok = true)
      (hreject : ¬ Rejects inv.key randomFail)
      (hlog : ((σ.db addr).paxosLog inv.key inv.round).acceptedId = 1)
      (hid : response.acceptedId = 1)
      (hop : response.operation = ((σ.db addr).paxosLog inv.key inv.round).operation)
      (hnone : inv.acceptedId = 0) :
      Delivers σ inv addr randomFail (.prepare inv.prepareReq) (.prepare status response)
        { inv with
          phase := .prepare todo
          numOfPromised := inv.numOfPromised + 1
          promisedBy := inv.promisedBy ++ [addr]
          acceptedId := response.acceptedId
          acceptedType := response.type
          acceptedValue := response.value }
  | keep {todo : List Addr} {status : Status} {response : PromiseResponse}
      (hphase : inv.phase = .prepare (addr :: todo)) (hok : status.ok = true)
      (hreject : ¬ Rejects inv.key randomFail)
      (hlog : ((σ.db addr).paxosLog inv.key inv.round).acceptedId = 1)
      (hid : response.acceptedId = 1) (hone : inv.acceptedId = 1) :
      Delivers σ inv addr randomFail (.prepare inv.prepareReq) (.prepare status response)
        { inv with
          phase := .prepare todo
          numOfPromised := inv.numOfPromised + 1
          promisedBy := inv.promisedBy ++ [addr] }
  | reject {todo : List Addr} {status : Status} {response : AcceptResponse}
      (hphase : inv.phase = .propose (addr :: todo)) (hno : status.ok = false)
      (hreject : Rejects inv.key randomFail) :
      Delivers σ inv addr randomFail (.propose inv.proposeReq) (.propose status response)
        { inv with phase := .propose todo }
  | accept {todo : List Addr} {status : Status}
      (hphase : inv.phase = .propose (addr :: todo)) (hok : status.ok = true) :
      Delivers σ inv addr randomFail (.propose inv.proposeReq)
        (.propose status inv.acceptanceOf)
        { inv with
          phase := .propose todo
          numOfAccepted := inv.numOfAccepted + 1
          acceptance := inv.acceptanceOf
          acceptedBy := inv.acceptedBy ++ [addr] }
  | inform {todo : List Addr} {status : Status}
      (hphase : inv.phase = .inform (addr :: todo))
      (hiff : status.ok = true ↔ ¬ (σ.db addr).Supersedes inv.key inv.round) :
      Delivers σ inv addr randomFail (.inform inv.informReq) (.inform status)
        { inv with phase := .inform todo }

section Calls

variable {σ : System} {i : Nat} {inv : Invocation} {addr : Addr} {todo : List Addr}

/-- A delivered `Prepare`, in a system with provenance. -/
theorem delivers_prepare (hprov : Provenance σ) (hrun : σ.runs[i]? = some inv)
    (hphase : inv.phase = .prepare (addr :: todo)) (randomFail : Bool) :
    Delivers σ inv addr randomFail (.prepare inv.prepareReq)
      (σ.answer addr (.prepare inv.prepareReq) {} randomFail)
      (inv.receive addr (some (σ.answer addr (.prepare inv.prepareReq) {} randomFail))) := by
  have hreceives := Invocation.receives_of_calls (.prepare hphase)
    (σ.callAnswer_answers addr (.prepare inv.prepareReq) randomFail .delivered)
  have hiff := (σ.servers addr).prepare_ok_iff randomFail inv.prepareReq
  have hcarries := (σ.servers addr).prepare_carries randomFail inv.prepareReq
  have hids := (hprov.db addr).accepted inv.key inv.round
  have hown := hprov.adopted i inv hrun
  simp only [callAnswer, answer, MultiPaxosServiceImpl.handle] at hreceives ⊢
  generalize (σ.servers addr).prepare {} inv.prepareReq randomFail = result
    at hiff hcarries hreceives
  obtain ⟨⟨status, response⟩, s'⟩ := result
  simp only at hiff hcarries hreceives ⊢
  have hlow : ((σ.servers addr).kvDb.paxosLog inv.prepareReq.key
      inv.prepareReq.round).promisedId < inv.prepareReq.proposeId := by
    show ((σ.db addr).paxosLog inv.key inv.round).promisedId < inv.proposeId
    rw [(hprov.db addr).promised, (hprov.wf i inv hrun).proposeId]
    decide
  have hone : 0 < ((σ.db addr).paxosLog inv.key inv.round).acceptedId →
      ((σ.db addr).paxosLog inv.key inv.round).acceptedId = 1 := by
    intro hpos
    rcases hids with h0 | ⟨h1, _⟩
    · omega
    · exact h1
  generalize inv.receive addr (some (.prepare status response)) = inv' at hreceives
  cases hreceives with
  | skip hcall hskip =>
    have hno : status.ok = false := by simpa [Reply.status] using hskip _ rfl
    rw [hphase]
    refine .refuse hphase hno ?_
    by_contra hreject
    exact absurd (hiff.mpr ⟨hlow, hreject⟩) (by simp [hno])
  | promise hphase' hok hnot =>
    rw [hphase] at hphase'
    cases hphase'
    rcases hcarries hok with ⟨hpos, hid, hop⟩ | ⟨hzero, hid⟩
    · have hid' : response.acceptedId = 1 := hid.trans (hone hpos)
      refine .keep hphase hok (hiff.mp hok).2 (hone hpos) hid' ?_
      rcases hown with h0 | ⟨h1, _⟩
      · omega
      · exact h1
    · refine .promise hphase hok (hiff.mp hok).2 ?_ hid
      rcases hids with h0 | ⟨h1, _⟩
      · exact h0
      · exact absurd (by rw [← System.db]; exact h1 ▸ Int.one_pos) hzero
  | promiseHigher hphase' hok hhigh =>
    rw [hphase] at hphase'
    cases hphase'
    rcases hcarries hok with ⟨hpos, hid, hop⟩ | ⟨hzero, hid⟩
    · have hid' : response.acceptedId = 1 := hid.trans (hone hpos)
      refine .adopt hphase hok (hiff.mp hok).2 (hone hpos) hid' hop ?_
      rcases hown with h0 | ⟨h1, _⟩
      · exact h0
      · omega
    · rcases hown with h0 | ⟨h1, _⟩ <;> omega

/-- A delivered `Propose`. -/
theorem delivers_propose (hprov : Provenance σ) (hrun : σ.runs[i]? = some inv)
    (hphase : inv.phase = .propose (addr :: todo)) (randomFail : Bool) :
    Delivers σ inv addr randomFail (.propose inv.proposeReq)
      (σ.answer addr (.propose inv.proposeReq) {} randomFail)
      (inv.receive addr (some (σ.answer addr (.propose inv.proposeReq) {} randomFail))) := by
  have hreceives := Invocation.receives_of_calls (.propose hphase)
    (σ.callAnswer_answers addr (.propose inv.proposeReq) randomFail .delivered)
  have hiff := (σ.servers addr).propose_ok_iff randomFail inv.proposeReq
  simp only [callAnswer, answer, MultiPaxosServiceImpl.handle] at hreceives ⊢
  generalize (σ.servers addr).propose {} inv.proposeReq randomFail = result at hiff hreceives
  obtain ⟨⟨status, response⟩, s'⟩ := result
  simp only at hiff hreceives ⊢
  have hlow : ((σ.servers addr).kvDb.paxosLog inv.proposeReq.key
      inv.proposeReq.round).promisedId ≤ inv.proposeReq.proposeId := by
    show ((σ.db addr).paxosLog inv.key inv.round).promisedId ≤ inv.proposeId
    rw [(hprov.db addr).promised, (hprov.wf i inv hrun).proposeId]
    decide
  generalize inv.receive addr (some (.propose status response)) = inv' at hreceives
  cases hreceives with
  | skip hcall hskip =>
    have hno : status.ok = false := by simpa [Reply.status] using hskip _ rfl
    rw [hphase]
    refine .reject hphase hno ?_
    by_contra hreject
    exact absurd (hiff.mpr ⟨hlow, hreject⟩) (by simp [hno])
  | accept hphase' hok =>
    rw [hphase] at hphase'
    cases hphase'
    exact .accept hphase hok

/-- A delivered `Inform`. -/
theorem delivers_inform (hprov : Provenance σ) (hrun : σ.runs[i]? = some inv)
    (hphase : inv.phase = .inform (addr :: todo)) (randomFail : Bool) :
    Delivers σ inv addr randomFail (.inform inv.informReq)
      (σ.answer addr (.inform inv.informReq) {} randomFail)
      (inv.receive addr (some (σ.answer addr (.inform inv.informReq) {} randomFail))) := by
  have hcommitted : inv.Committed := by simp [Invocation.Committed, hphase]
  have hiff := (σ.servers addr).inform_ok_iff inv.informReq
  have hround : inv.informReq.acceptance.round = inv.round := by
    rw [Invocation.informReq, ((hprov.wf i inv hrun).committed hcommitted).2.2,
      Invocation.acceptanceOf]
  rw [hround] at hiff
  simp only [answer, MultiPaxosServiceImpl.handle]
  generalize (σ.servers addr).inform {} inv.informReq = result at hiff
  obtain ⟨status, s'⟩ := result
  have heq : inv.receive addr (some (.inform status)) =
      { inv with phase := inv.phase.tail } := rfl
  rw [heq, hphase]
  exact .inform hphase hiff

/-- The delivered calls of an invocation, in a system with provenance. -/
theorem delivers_of_calls {msg : Message} (hprov : Provenance σ) (hrun : σ.runs[i]? = some inv)
    (hcall : inv.Calls addr msg) (randomFail : Bool) :
    Delivers σ inv addr randomFail msg (σ.answer addr msg {} randomFail)
      (inv.receive addr (some (σ.answer addr msg {} randomFail))) := by
  cases hcall with
  | ping hphase =>
    have hreceive : inv.receive addr (some (.ping Status.OK)) =
        { inv with
          phase := inv.phase.tail
          livePaxosStubs := inv.livePaxosStubs ++ [addr] } := rfl
    show Delivers σ inv addr randomFail .ping (.ping Status.OK) _
    rw [show σ.answer addr .ping {} randomFail = .ping Status.OK from rfl, hreceive, hphase]
    exact .ping hphase
  | prepare hphase => exact delivers_prepare hprov hrun hphase randomFail
  | propose hphase => exact delivers_propose hprov hrun hphase randomFail
  | inform hphase => exact delivers_inform hprov hrun hphase randomFail

end Calls

/-- A delivered call, seen from its invocation, from the history and from the
receiver. -/
theorem call_delivered {σ : System} (hprov : Provenance σ) {run : Nat} {inv : Invocation}
    {receiver : Addr} {msg : Message} (hrun : σ.runs[run]? = some inv)
    (hcall : inv.Calls receiver msg) (randomFail : Bool) :
    ∃ reply inv', Delivers σ inv receiver randomFail msg reply inv' ∧
      (σ.call run inv receiver msg .delivered randomFail).runs = σ.runs.set run inv' ∧
      (σ.call run inv receiver msg .delivered randomFail).history =
        .handled run receiver msg reply (σ.dataChanged receiver msg {} randomFail) ::
          .sent run receiver msg :: σ.history ∧
      Handled (σ.servers receiver)
        ((σ.call run inv receiver msg .delivered randomFail).servers receiver) msg reply ∧
      msg.logged reply = msg.slot ∧ inv.Evolves inv' :=
  ⟨_, _, delivers_of_calls hprov hrun hcall randomFail, rfl, rfl,
    σ.call_handled run inv receiver msg randomFail,
    MultiPaxosServiceImpl.handle_logged _ _ _, σ.call_evolves hcall randomFail .delivered⟩

/-- A call that is not delivered only moves its loop on. -/
theorem call_lost {σ : System} {run : Nat} {inv : Invocation} {receiver : Addr}
    {msg : Message} {fate : Fate} {randomFail : Bool} (hfate : fate ≠ .delivered) :
    (σ.call run inv receiver msg fate randomFail).runs =
        σ.runs.set run { inv with phase := inv.phase.tail } ∧
      (σ.call run inv receiver msg fate randomFail).history =
        .sent run receiver msg :: σ.history ∧
      (σ.call run inv receiver msg fate randomFail).servers = σ.servers := by
  cases fate with
  | delivered => exact absurd rfl hfate
  | lost => exact ⟨rfl, rfl, rfl⟩
  | replyLost => exact ⟨rfl, rfl, rfl⟩

section Facts

variable {σ : System} {inv inv' : Invocation} {addr : Addr} {randomFail : Bool} {msg : Message}
  {reply : Reply}

theorem Delivers.key (h : Delivers σ inv addr randomFail msg reply inv') :
    inv'.key = inv.key := by
  cases h <;> rfl

theorem Delivers.round (h : Delivers σ inv addr randomFail msg reply inv') :
    inv'.round = inv.round := by
  cases h <;> rfl

/-- An adopted acceptance stays adopted. -/
theorem Delivers.adopted (h : Delivers σ inv addr randomFail msg reply inv')
    (hpos : 0 < inv.acceptedId) : 0 < inv'.acceptedId := by
  cases h with
  | adopt hphase hok hreject hlog hid hop hnone => omega
  | _ => exact hpos

end Facts

/-! ## Systems that lose no call -/

/-- Every call is delivered, and answered in time. -/
def Delivered (_ : System) : Action → Prop
  | .start .. => True
  | .call _ fate _ => fate = .delivered
  | .advance _ => True
  | .arrive .. => False

instance (σ : System) (act : Action) : Decidable (Delivered σ act) :=
  match act with
  | .start .. => isTrue trivial
  | .call _ fate _ => inferInstanceAs (Decidable (fate = .delivered))
  | .advance _ => isTrue trivial
  | .arrive .. => isFalse id

/-- All servers are configured with the same replica list. -/
def SharesReplicas (stubs : PaxosStubs) (σ : System) : Prop :=
  ∀ addr, (σ.servers addr).paxosStubsMap.stubs = stubs

/-- What the evaluation of a run from start-up finds holds in a reachable
state. -/
theorem exists_reachable_fresh {replicas : List Addr} {C : System → Action → Prop}
    [∀ σ act, Decidable (C σ act)] {acts : List Action} {P : System → Prop}
    (h : ∃ σ ∈ (paxos (SharesReplicas (.ofReplicas replicas))).execWhere C (fresh replicas) acts,
      P σ) :
    ∃ σ, (paxos (SharesReplicas (.ofReplicas replicas))).Reachable C σ ∧ P σ := by
  refine ActionSystem.exists_reachable_of_execWhere ?_ h
  exact ⟨fresh_isInitial replicas, fun _ => rfl⟩

/-- Every replica that the invocation has pinged is live. -/
def SeesAll (replicas : List Addr) (inv : Invocation) : Prop :=
  match inv.phase with
  | .ping todo => inv.livePaxosStubs ++ todo = replicas
  | _ => inv.livePaxosStubs = replicas

/-- Past its promise quorum the live set of the invocation is the whole list. -/
theorem SeesAll.live {replicas : List Addr} {inv : Invocation} (h : SeesAll replicas inv)
    (hproposed : inv.Proposed) : inv.livePaxosStubs = replicas := by
  unfold SeesAll at h
  unfold Invocation.Proposed at hproposed
  split at h
  · rename_i hphase
    rw [hphase] at hproposed
    exact hproposed.elim
  · exact h

/-- What the delivery of all calls keeps. -/
structure Lossless (stubs : PaxosStubs) (σ : System) : Prop where
  shares : SharesReplicas stubs σ
  inFlight : σ.inFlight = []
  sees : ∀ (i : Nat) (inv : Invocation), σ.runs[i]? = some inv → SeesAll stubs.addrs inv

theorem lossless_init {stubs : PaxosStubs} {σ : System} (h : σ.IsInitial)
    (hshares : SharesReplicas stubs σ) : Lossless stubs σ :=
  ⟨hshares, h.inFlight, fun i inv hi => by simp [h.runs] at hi⟩

/-- A step leaves the replica lists as they are. -/
theorem Effect.stubs {σ σ' : System} (h : Effect σ σ') (addr : Addr) :
    (σ'.servers addr).paxosStubsMap.stubs = (σ.servers addr).paxosStubsMap.stubs := by
  cases h with
  | quiet new hhistory hnew hservers => exact (hservers addr).stubs
  | handled run receiver msg context randomFail new hhistory hnew hhandled hother =>
    by_cases ha : addr = receiver
    · subst ha
      exact hhandled.stubs
    · rw [hother addr ha]

theorem lossless_step {stubs : PaxosStubs} {σ σ' : System} {act : Action}
    (hprov : Provenance σ) (h : Lossless stubs σ) (hcond : Delivered σ act)
    (hstep : StepCases σ act σ') : Lossless stubs σ' := by
  have hshares : SharesReplicas stubs σ' := fun addr =>
    ((step_effect hstep).stubs addr).trans (h.shares addr)
  cases hstep with
  | refuse hrefusal => exact ⟨hshares, h.inFlight, h.sees⟩
  | @enter server request context hrefusal =>
    refine ⟨hshares, h.inFlight, fun i inv' hi => ?_⟩
    rcases getElem?_snoc_cases hi with ⟨_, rfl⟩ | hi
    · show [] ++ (σ.servers server).paxosStubsMap.stubs.addrs = stubs.addrs
      rw [h.shares server, List.nil_append]
    · exact h.sees i inv' hi
  | @call run inv receiver msg fate randomFail hrun hcall =>
    cases hcond
    refine ⟨hshares, h.inFlight, fun i inv' hi => ?_⟩
    obtain ⟨reply, inv1, hdelivers, hruns, _⟩ :=
      call_delivered hprov hrun hcall randomFail
    rw [hruns] at hi
    rcases getElem?_set_cases hrun hi with ⟨_, rfl⟩ | ⟨_, hi⟩
    · have hsees := h.sees run inv hrun
      cases hdelivers <;> simp_all [SeesAll]
    · exact h.sees i inv' hi
  | @advance run inv inv' hrun hadvance =>
    refine ⟨hshares, by rw [noteReturn_inFlight]; exact h.inFlight, fun i inv'' hi => ?_⟩
    rw [noteReturn_runs] at hi
    rcases getElem?_set_cases hrun hi with ⟨_, rfl⟩ | ⟨_, hi⟩
    · have hsees := h.sees run inv hrun
      cases hadvance <;> simp_all [SeesAll, Invocation.finish]
    · exact h.sees i inv'' hi
  | arrive context randomFail hindex => exact hcond.elim

theorem lossless_of_reachable {stubs : PaxosStubs} {C : System → Action → Prop} {σ : System}
    (hC : ∀ σ act, C σ act → Delivered σ act)
    (h : (paxos (SharesReplicas stubs)).Reachable C σ) : Lossless stubs σ := by
  refine ActionSystem.Reachable.invariant ?_ ?_ h
  · intro σ hinit
    exact lossless_init hinit.1 hinit.2
  · intro σ act σ' hreach hcond hstep hlossless
    exact lossless_step (provenance_of_reachable hreach) hlossless (hC _ _ hcond)
      (step_cases hstep)

/-! ## Informing the live set -/

/-- `addr` has handled the `Inform` of the invocation. -/
def InformedAt (σ : System) (i : Nat) (inv : Invocation) (addr : Addr) : Prop :=
  ∃ reply changed, .handled i addr (.inform inv.informReq) reply changed ∈ σ.history

/-- The invocation has informed every live replica that its loop visited. -/
def InformsLive (σ : System) : Prop :=
  ∀ (i : Nat) (inv : Invocation), σ.runs[i]? = some inv → inv.Committed →
    ∀ a ∈ inv.livePaxosStubs, a ∈ inv.uninformed ∨ σ.InformedAt i inv a

/-- A replica stays informed. -/
theorem InformedAt.step {σ σ' : System} {act : Action} (hstep : StepCases σ act σ') {i : Nat}
    {inv : Invocation} {addr : Addr} (h : σ.InformedAt i inv addr) :
    σ'.InformedAt i inv addr := by
  obtain ⟨reply, changed, hmem⟩ := h
  exact ⟨reply, changed, (step_effect hstep).mem_history hmem⟩

theorem informsLive_step {σ σ' : System} {act : Action} (hprov : Provenance σ)
    (h : InformsLive σ) (hdelivered : Delivered σ act) (hstep : StepCases σ act σ') :
    InformsLive σ' := by
  intro i inv hi hcommitted a ha
  have hgrow : ∀ inv, σ.InformedAt i inv a → σ'.InformedAt i inv a := fun inv =>
    InformedAt.step hstep
  cases hstep with
  | refuse hrefusal => exact (h i inv hi hcommitted a ha).imp_right (hgrow inv)
  | enter hrefusal =>
    rcases getElem?_snoc_cases hi with ⟨_, rfl⟩ | hi
    · exact hcommitted.elim
    · exact (h i inv hi hcommitted a ha).imp_right (hgrow inv)
  | @call run inv0 receiver msg fate randomFail hrun hcall =>
    cases hdelivered
    obtain ⟨reply, inv1, hdelivers, hruns, hhistory, _⟩ :=
      call_delivered hprov hrun hcall randomFail
    rw [hruns] at hi
    rcases getElem?_set_cases hrun hi with ⟨rfl, rfl⟩ | ⟨_, hi⟩
    · cases hdelivers with
      | @inform todo status hphase hiff =>
        have hcommitted0 : inv0.Committed := by simp [Invocation.Committed, hphase]
        rcases h i inv0 hrun hcommitted0 a ha with hun | hdone
        · simp only [Invocation.uninformed, hphase, List.mem_cons] at hun ⊢
          rcases hun with rfl | hun
          · refine Or.inr ⟨.inform status, σ.dataChanged a (.inform inv0.informReq) {} randomFail,
              ?_⟩
            rw [hhistory]
            exact List.mem_cons_self
          · exact Or.inl hun
        · exact Or.inr (hgrow inv0 hdone)
      | _ => exact hcommitted.elim
    · exact (h i inv hi hcommitted a ha).imp_right (hgrow inv)
  | @advance run inv0 inv1 hrun hadvance =>
    rw [noteReturn_runs] at hi
    rcases getElem?_set_cases hrun hi with ⟨rfl, rfl⟩ | ⟨_, hi⟩
    · cases hadvance with
      | startInform hphase hcount => exact Or.inl ha
      | done hphase =>
        have hcommitted0 : inv0.Committed := by simp [Invocation.Committed, hphase]
        rcases h i inv0 hrun hcommitted0 a ha with hun | hdone
        · simp [Invocation.uninformed, hphase] at hun
        · exact Or.inr (hgrow inv0 hdone)
      | startPrepare hphase hlive => exact hcommitted.elim
      | startPropose hphase hcount => exact hcommitted.elim
      | noneLive message hphase hlive => cases hcommitted
      | failedQuorum message hphase hcount => cases hcommitted
      | failedConsensus message hphase hcount => cases hcommitted
    · exact (h i inv hi hcommitted a ha).imp_right (hgrow inv)
  | arrive context randomFail hindex => exact hdelivered.elim

theorem informsLive_of_reachable {setup : System → Prop} {C : System → Action → Prop}
    {σ : System} (hC : ∀ σ act, C σ act → Delivered σ act)
    (h : (paxos setup).Reachable C σ) : InformsLive σ := by
  refine ActionSystem.Reachable.invariant ?_ ?_ h
  · intro σ hinit i inv hi
    simp [hinit.1.runs] at hi
  · intro σ act σ' hreach hcond hstep hinforms
    exact informsLive_step (provenance_of_reachable hreach) hinforms (hC _ _ hcond)
      (step_cases hstep)

/-- An invocation that returned OK has informed its whole live set. -/
theorem informed_of_returned {σ : System} (hinforms : InformsLive σ) {i : Nat}
    {inv : Invocation} (hrun : σ.runs[i]? = some inv) (hreturned : inv.Returned true)
    {a : Addr} (ha : a ∈ inv.livePaxosStubs) : σ.InformedAt i inv a := by
  obtain ⟨status, hphase, _⟩ := id hreturned
  rcases hinforms i inv hrun (Invocation.committed_of_returned hreturned) a ha with hun | hdone
  · simp [Invocation.uninformed, hphase] at hun
  · exact hdone

end System

end PaxosKVStore
