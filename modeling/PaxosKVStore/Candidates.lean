import PaxosKVStore.Acceptances
import PaxosKVStore.Course

/-!
# Elections among live servers

Each of some live servers nominates itself, in any number of overlapping
`ElectNewCoordinator` calls.  `Elects` is the condition on a step: only these
elections move, a call to a live server is delivered, and one to another
server fails.  The elections are the invocations from the index `n` on, and
what else there is stands still.

An election then visits the live replicas in the order of the list, and all of
them promise and accept: `OnCourse`.  So it returns OK.
-/

namespace PaxosKVStore

open MultiPaxosServiceImpl (Rejects)

namespace System

/-- A step of the elections of the servers `live`, which are the invocations
from the index `n` on. -/
def Elects (live : List Addr) (n : Nat) (σ : System) : Action → Prop
  | .start server request _ =>
      server ∈ live ∧ request = .electCoordinator "coordinator" server
  | .call run fate _ =>
      n ≤ run ∧ ∀ inv ∈ σ.runs[run]?, ∀ call ∈ inv.nextCall,
        (fate = .delivered ↔ call.1 ∈ live)
  | .advance run => n ≤ run
  | .arrive .. => False

instance (live : List Addr) (n : Nat) (σ : System) : ∀ act, Decidable (σ.Elects live n act)
  | .start _ _ _ => inferInstanceAs (Decidable (_ ∧ _))
  | .call run fate _ =>
      inferInstanceAs (Decidable (n ≤ run ∧ ∀ inv ∈ σ.runs[run]?, ∀ call ∈ inv.nextCall,
        (fate = .delivered ↔ call.1 ∈ live)))
  | .advance _ => inferInstanceAs (Decidable (_ ≤ _))
  | .arrive .. => isFalse id

/-- The steps of the elections, case by case. -/
inductive ElectsCases (live : List Addr) (n : Nat) (σ : System) : Action → System → Prop where
  | refuse {act : Action} {σ' : System} (hruns : σ'.runs = σ.runs)
      (hservers : σ'.servers = σ.servers) : ElectsCases live n σ act σ'
  | enter {act : Action} {σ' : System} {server : Addr} (hlive : server ∈ live)
      (hruns : σ'.runs = σ.runs ++
        [Invocation.enter server (σ.servers server) (.electCoordinator "coordinator" server)])
      (hservers : ∀ a, Unchanged (σ.servers a) (σ'.servers a)) : ElectsCases live n σ act σ'
  | deliver {σ' : System} {run : Nat} {inv inv' : Invocation} {receiver : Addr} {msg : Message}
      {reply : Reply} (randomFail : Bool) (hn : n ≤ run) (hrun : σ.runs[run]? = some inv)
      (hlive : receiver ∈ live) (hcall : inv.Calls receiver msg)
      (hdelivers : σ.Delivers inv receiver randomFail msg reply inv')
      (hevolves : inv.Evolves inv') (hruns : σ'.runs = σ.runs.set run inv')
      (hservers : σ'.servers = Function.update σ.servers receiver
        ((σ.servers receiver).handle {} randomFail msg).2) :
      ElectsCases live n σ (.call run .delivered randomFail) σ'
  | lose {σ' : System} {act : Action} {run : Nat} {inv : Invocation} {receiver : Addr}
      {msg : Message} (hn : n ≤ run) (hrun : σ.runs[run]? = some inv) (hdead : receiver ∉ live)
      (hcall : inv.Calls receiver msg)
      (hruns : σ'.runs = σ.runs.set run { inv with phase := inv.phase.tail })
      (hservers : σ'.servers = σ.servers) : ElectsCases live n σ act σ'
  | advance {σ' : System} {act : Action} {run : Nat} {inv inv' : Invocation} (hn : n ≤ run)
      (hrun : σ.runs[run]? = some inv) (hadvance : inv.Advances inv')
      (hruns : σ'.runs = σ.runs.set run inv') (hservers : σ'.servers = σ.servers) :
      ElectsCases live n σ act σ'

theorem elects_cases {live : List Addr} {n : Nat} {σ σ' : System} {act : Action}
    (hprov : Provenance σ) (helects : σ.Elects live n act) (hstep : StepCases σ act σ') :
    ElectsCases live n σ act σ' := by
  cases hstep with
  | refuse hrefusal => exact .refuse rfl rfl
  | @enter server request context hrefusal =>
    obtain ⟨hlive, rfl⟩ := helects
    exact .enter hlive rfl (Unchanged.enter σ.servers server _)
  | @call run inv receiver msg fate randomFail hrun hcall =>
    obtain ⟨hn, hfates⟩ := helects
    have hfate := hfates inv hrun (receiver, msg) (Invocation.nextCall_of_calls hcall)
    by_cases hdelivered : fate = .delivered
    · subst hdelivered
      obtain ⟨reply, inv', hdelivers, hruns, _, _, _, hevolves⟩ :=
        call_delivered hprov hrun hcall randomFail
      exact .deliver randomFail hn hrun (hfate.mp rfl) hcall hdelivers hevolves hruns rfl
    · obtain ⟨hruns, _, hservers⟩ :=
        @call_lost σ run inv receiver msg fate randomFail hdelivered
      exact .lose hn hrun (fun h => hdelivered (hfate.mpr h)) hcall hruns hservers
  | @advance run inv inv' hrun hadvance =>
    exact .advance helects hrun hadvance (noteReturn_runs _ _ _) (noteReturn_servers _ _ _)
  | arrive context randomFail hindex => exact helects.elim

end System

/-! ## What a call of an election leaves at its receiver -/

namespace System

section Delivered

variable {σ : System} {i : Nat} {inv : Invocation} {receiver : Addr} {msg : Message}

/-- Only the later two loops write an acceptance, which is of the proposal. -/
theorem accepted_of_calls (hprov : Provenance σ) (hrun : σ.runs[i]? = some inv)
    (hcall : inv.Calls receiver msg) (hkey : inv.key = "coordinator") (randomFail : Bool)
    (r : Int) :
    (((σ.servers receiver).handle {} randomFail msg).2.kvDb.paxosLog "coordinator" r).accepted =
      if inv.Proposed ∧ r = inv.round then some inv.proposal
      else ((σ.db receiver).paxosLog "coordinator" r).accepted := by
  have hnone : (σ.servers receiver).NoPromise := (hprov.db receiver).promised
  have hwf := hprov.wf i inv hrun
  have hafter := hnone.accepted_handle { randomFail := randomFail, msg := msg }
    (hprov.isPositive hrun hcall.sends) "coordinator" r
  simp only at hafter
  rw [hafter]
  have hrejects : ¬ Rejects "coordinator" randomFail := fun h => h.1 rfl
  cases hcall with
  | ping hphase =>
    rw [if_neg (by simp [Invocation.Proposed, hphase])]
    rfl
  | prepare hphase =>
    rw [if_neg (by simp [Invocation.Proposed, hphase])]
    rfl
  | propose hphase =>
    have hproposed : inv.Proposed := by simp [Invocation.Proposed, hphase]
    simp only [AcceptorCall.writes, Bool.false_eq_true, if_false, Invocation.proposeReq,
      hrejects, hkey, hproposed, true_and]
    rfl
  | inform hphase =>
    have hcommitted : inv.Committed := by simp [Invocation.Committed, hphase]
    have hproposed := hwf.proposed_of_committed hcommitted
    have hacceptance := (hwf.committed hcommitted).2.2
    simp only [AcceptorCall.writes, Bool.false_eq_true, if_false, Invocation.informReq,
      hacceptance, Invocation.acceptanceOf, hkey, hproposed, true_and]
    rfl

/-- The last loop sets the coordinator, unless a higher round is logged. -/
theorem coordinator_of_calls (hwf : inv.Wf) (hcall : inv.Calls receiver msg)
    (hnamed : inv.Committed → inv.proposal.type = .setCoordinator ∧
      inv.proposal.value ∈ (σ.servers receiver).paxosStubsMap.stubs.addrs)
    (randomFail : Bool) :
    ((σ.servers receiver).handle {} randomFail msg).2.paxosStubsMap.coordinator =
      if inv.Committed ∧ ¬ (σ.db receiver).Supersedes inv.key inv.round then inv.proposal.value
      else (σ.servers receiver).paxosStubsMap.coordinator := by
  have hhandled := MultiPaxosServiceImpl.handle_handled (σ.servers receiver) randomFail {} msg
  rw [hhandled.coordinator, executed_of_calls hwf hcall]
  by_cases hexecutes : inv.Committed ∧ ¬ (σ.db receiver).Supersedes inv.key inv.round
  · rw [if_pos hexecutes, if_pos hexecutes]
    exact if_pos (hnamed hexecutes.1)
  · rw [if_neg hexecutes, if_neg hexecutes]

end Delivered

/-! ## The elections of a phase -/

/-- The invocations from the index `n` on are elections of live servers, each
on its course. -/
def Candidates (live : List Addr) (stubs : PaxosStubs) (n : Nat) (σ : System) : Prop :=
  ∀ (i : Nat) (inv : Invocation), n ≤ i → σ.runs[i]? = some inv →
    (∃ server ∈ live, inv.request = .electCoordinator "coordinator" server) ∧
      inv.OnCourse live stubs.addrs

variable {live : List Addr} {stubs : PaxosStubs} {n : Nat} {σ σ' : System} {act : Action}

theorem Candidates.key (h : Candidates live stubs n σ) {i : Nat} {inv : Invocation}
    (hn : n ≤ i) (hi : σ.runs[i]? = some inv) : inv.key = "coordinator" := by
  obtain ⟨⟨server, _, hrequest⟩, _⟩ := h i inv hn hi
  rw [Invocation.key, hrequest]
  rfl

theorem Candidates.reached_ne_nil (h : Candidates live stubs n σ)
    (hlisted : ∀ a ∈ live, a ∈ stubs.addrs) {i : Nat} {inv : Invocation} (hn : n ≤ i)
    (hi : σ.runs[i]? = some inv) : Invocation.reached live stubs.addrs ≠ [] := by
  obtain ⟨⟨server, hserver, _⟩, _⟩ := h i inv hn hi
  exact List.ne_nil_of_mem (Invocation.mem_reached.mpr ⟨hlisted server hserver, hserver⟩)

theorem candidates_step (hprov : Provenance σ) (hshares : SharesReplicas stubs σ)
    (hlisted : ∀ a ∈ live, a ∈ stubs.addrs) (h : Candidates live stubs n σ)
    (hstep : ElectsCases live n σ act σ') : Candidates live stubs n σ' := by
  intro i inv' hi hrun'
  have hcandidates := h
  cases hstep with
  | refuse hruns hservers =>
    rw [hruns] at hrun'
    exact h i inv' hi hrun'
  | @enter _ _ server hlive hruns hservers =>
    rw [hruns] at hrun'
    rcases getElem?_snoc_cases hrun' with ⟨_, rfl⟩ | hrun'
    · refine ⟨⟨server, hlive, rfl⟩, [], ?_, rfl, rfl, rfl⟩
      rw [List.nil_append, PaxosStubsMap.getPaxosStubs, hshares]
    · exact h i inv' hi hrun'
  | deliver randomFail hn hrun hlive hcall hdelivers hevolves hruns hservers =>
    rw [hruns] at hrun'
    rcases getElem?_set_cases hrun hrun' with ⟨rfl, rfl⟩ | ⟨_, hrun'⟩
    · obtain ⟨hrequest, hcourse⟩ := h i _ hi hrun
      rw [hevolves.request]
      exact ⟨hrequest, hcourse.deliver (fun h => h.1 (hcandidates.key hi hrun)) hlive hdelivers⟩
    · exact h i inv' hi hrun'
  | lose hn hrun hdead hcall hruns hservers =>
    rw [hruns] at hrun'
    rcases getElem?_set_cases hrun hrun' with ⟨rfl, rfl⟩ | ⟨_, hrun'⟩
    · obtain ⟨hrequest, hcourse⟩ := h i _ hi hrun
      obtain ⟨todo, hphase⟩ := hcourse.ping_of_dead hcall hdead
      exact ⟨hrequest, hcourse.lose hphase hdead⟩
    · exact h i inv' hi hrun'
  | advance hn hrun hadvance hruns hservers =>
    rw [hruns] at hrun'
    rcases getElem?_set_cases hrun hrun' with ⟨rfl, rfl⟩ | ⟨_, hrun'⟩
    · obtain ⟨hrequest, hcourse⟩ := h i _ hi hrun
      have hwf := hprov.wf i _ hrun
      rw [(Invocation.Evolves.advances hwf hadvance).request]
      exact ⟨hrequest, hcourse.advance hwf (hcandidates.reached_ne_nil hlisted hi hrun) hadvance⟩
    · exact h i inv' hi hrun'

end System

end PaxosKVStore
