import PaxosKVStore.ElectionRound

/-!
# The coordinator after overlapping elections

A live server sets the coordinator that an election informs it of, unless it
has logged a higher round.  So the highest round of the elections decides,
provided that no live server has logged a higher one before: `Tracks` says
that a server which an election of that round has informed holds its proposal.
Every election that returned has informed all live servers, and the elections
of one round agree.
-/

namespace PaxosKVStore

open Invocation (reached)

namespace System

variable {live : List Addr} {stubs : PaxosStubs} {n : Nat} {R : Int} {σ0 σ σ' : System}
  {act : Action}

/-- What the elections of a phase leave at the servers, since `σ0`. -/
structure Tracks (n : Nat) (R : Int) (σ0 σ : System) : Prop where
  logged : ∀ (i : Nat) (inv : Invocation), n ≤ i → σ.runs[i]? = some inv →
    ∀ a ∈ inv.promisedBy, inv.round ∈ (σ.db a).rounds "coordinator"
  origin : ∀ a, ∀ r ∈ (σ.db a).rounds "coordinator", r ∈ (σ0.db a).rounds "coordinator" ∨
    ∃ (i : Nat) (inv : Invocation), n ≤ i ∧ σ.runs[i]? = some inv ∧ inv.round = r
  coordinator : ∀ (i : Nat) (inv : Invocation), n ≤ i → σ.runs[i]? = some inv →
    inv.round = R → ∀ a, inv.Informed a → (∀ r ∈ (σ.db a).rounds "coordinator", r ≤ R) →
    (σ.servers a).paxosStubsMap.coordinator = inv.proposal.value

theorem tracks_start (hruns : σ.runs.length ≤ n) : Tracks n R σ σ := by
  have hno : ∀ (i : Nat) (inv : Invocation), n ≤ i → σ.runs[i]? ≠ some inv := by
    intro i inv hn hi
    rw [List.getElem?_eq_none (by omega)] at hi
    cases hi
  exact ⟨fun i inv hn hi => absurd hi (hno i inv hn), fun a r hr => Or.inl hr,
    fun i inv hn hi => absurd hi (hno i inv hn)⟩

/-- A move that reaches no server keeps the tracks of an election. -/
theorem Tracks.of_set (h : Tracks n R σ0 σ) {run : Nat} {inv inv' : Invocation}
    (hrun : σ.runs[run]? = some inv) (hruns : σ'.runs = σ.runs.set run inv')
    (hservers : σ'.servers = σ.servers) (hevolves : inv.Evolves inv')
    (hpromised : inv'.promisedBy = inv.promisedBy)
    (hinformed : ∀ a, inv'.Informed a → inv.Informed a)
    (hwf : inv.Wf) : Tracks n R σ0 σ' where
  logged i other hn hi a ha := by
    rw [db, hservers]
    rw [hruns] at hi
    rcases getElem?_set_cases hrun hi with ⟨rfl, rfl⟩ | ⟨_, hi⟩
    · rw [hevolves.round]
      rw [hpromised] at ha
      exact h.logged i inv hn hrun a ha
    · exact h.logged i other hn hi a ha
  origin a r hr := by
    rw [db, hservers] at hr
    rw [hruns]
    exact (h.origin a r hr).imp_right (exists_run_set hrun fun h => hevolves.round.trans h)
  coordinator i other hn hi hround a hinf hle := by
    rw [db, hservers] at hle
    rw [hservers]
    rw [hruns] at hi
    rcases getElem?_set_cases hrun hi with ⟨rfl, rfl⟩ | ⟨_, hi⟩
    · have hbefore := hinformed a hinf
      have hproposed := hwf.proposed_of_committed hbefore.committed
      rw [(hevolves.proposed hproposed).2.2]
      exact h.coordinator i inv hn hrun (hevolves.round.symm.trans hround) a hbefore hle
    · exact h.coordinator i other hn hi hround a hinf hle

/-- A new election. -/
theorem Tracks.enter (h : Tracks n R σ0 σ) {server : Addr}
    (hruns : σ'.runs = σ.runs ++
      [Invocation.enter server (σ.servers server) (.electCoordinator "coordinator" server)])
    (hservers : ∀ a, Unchanged (σ.servers a) (σ'.servers a)) : Tracks n R σ0 σ' where
  logged i inv hn hi a ha := by
    rw [hruns] at hi
    refine ((hservers a).mem_rounds _ _).mpr ?_
    rcases getElem?_snoc_cases hi with ⟨_, rfl⟩ | hi
    · cases ha
    · exact h.logged i inv hn hi a ha
  origin a r hr := by
    refine (h.origin a r (((hservers a).mem_rounds _ _).mp hr)).imp_right ?_
    rintro ⟨i, inv, hn, hi, hround⟩
    exact ⟨i, inv, hn, by rw [hruns]; exact getElem?_snoc_of_some hi, hround⟩
  coordinator i inv hn hi hround a hinf hle := by
    rw [hruns] at hi
    have hsame : (σ'.servers a).paxosStubsMap.coordinator =
        (σ.servers a).paxosStubsMap.coordinator := (hservers a).coordinator
    rcases getElem?_snoc_cases hi with ⟨_, rfl⟩ | hi
    · exact hinf.elim
    · rw [hsame]
      exact h.coordinator i inv hn hi hround a hinf fun r hr =>
        hle r (((hservers a).mem_rounds _ _).mpr hr)

section Deliver

variable {run : Nat} {inv inv' : Invocation} {receiver : Addr} {msg : Message} {reply : Reply}
  {randomFail : Bool}

/-- The coordinators after a call of an election. -/
theorem coordinator_deliver (hwf : inv.Wf) (hcall : inv.Calls receiver msg)
    (hnamed : inv.Committed → inv.proposal.type = .setCoordinator ∧
      inv.proposal.value ∈ (σ.servers receiver).paxosStubsMap.stubs.addrs)
    (hservers : σ'.servers = Function.update σ.servers receiver
      ((σ.servers receiver).handle {} randomFail msg).2) (a : Addr) :
    (σ'.servers a).paxosStubsMap.coordinator =
      if a = receiver ∧ inv.Committed ∧ ¬ (σ.db receiver).Supersedes inv.key inv.round then
        inv.proposal.value
      else (σ.servers a).paxosStubsMap.coordinator := by
  rw [hservers]
  by_cases ha : a = receiver
  · subst ha
    rw [Function.update_self, coordinator_of_calls hwf hcall hnamed]
    simp
  · rw [Function.update_of_ne ha, if_neg (fun h => ha h.1)]

/-- A call of an election, whose proposal names a listed server if it has got
so far. -/
theorem Tracks.deliver (h : Tracks n R σ0 σ) (hprov : Provenance σ)
    (hcandidates : Candidates live stubs n σ) (hagrees : RoundAgrees live stubs n R σ)
    (hn : n ≤ run) (hrun : σ.runs[run]? = some inv) (hcall : inv.Calls receiver msg)
    (hdelivers : σ.Delivers inv receiver randomFail msg reply inv') (hevolves : inv.Evolves inv')
    (hruns : σ'.runs = σ.runs.set run inv')
    (hservers : σ'.servers = Function.update σ.servers receiver
      ((σ.servers receiver).handle {} randomFail msg).2)
    (hnamed : inv.Committed → inv.proposal.type = .setCoordinator ∧
      inv.proposal.value ∈ (σ.servers receiver).paxosStubsMap.stubs.addrs) :
    Tracks n R σ0 σ' := by
  have hwf := hprov.wf run inv hrun
  have hkey := hcandidates.key hn hrun
  have hrounds := fun a => mem_rounds_deliver hwf hcall hservers a "coordinator"
  have hcoordinators := coordinator_deliver hwf hcall hnamed hservers
  refine ⟨?_, ?_, ?_⟩
  · intro i other hi hother a ha
    rw [hrounds]
    rw [hruns] at hother
    rcases getElem?_set_cases hrun hother with ⟨rfl, rfl⟩ | ⟨_, hother⟩
    · rw [hevolves.round]
      rcases hdelivers.promisedBy ha with hold | ⟨rfl, hmsg⟩
      · exact Or.inr (h.logged i inv hn hrun a hold)
      · exact Or.inl ⟨rfl, hmsg, hkey.symm, rfl⟩
    · exact Or.inr (h.logged i other hi hother a ha)
  · intro a r hr
    rw [hruns]
    rcases (hrounds a r).mp hr with ⟨_, _, _, rfl⟩ | hold
    · exact Or.inr ⟨run, inv', hn, getElem?_set_self' hrun, hevolves.round⟩
    · exact (h.origin a r hold).imp_right (exists_run_set hrun fun h => hevolves.round.trans h)
  · intro i other hi hother hround a hinf hle
    have hle' : ∀ r ∈ (σ.db a).rounds "coordinator", r ≤ R := fun r hr =>
      hle r ((hrounds a r).mpr (Or.inr hr))
    rw [hruns] at hother
    rw [hcoordinators]
    rcases getElem?_set_cases hrun hother with ⟨rfl, rfl⟩ | ⟨_, hother⟩
    · -- the election that moves: it informs `a` now, or has done so before
      rw [hevolves.round] at hround
      have hcommitted : inv.Committed :=
        (hdelivers.informed hinf).elim (fun hold => hold.committed) fun hnow => hnow.2
      rw [(hevolves.proposed (hwf.proposed_of_committed hcommitted)).2.2]
      split
      · rfl
      · rename_i hskip
        rcases hdelivers.informed hinf with hold | ⟨rfl, _⟩
        · exact h.coordinator i inv hn hrun hround a hold hle'
        · refine absurd ⟨rfl, hcommitted, ?_⟩ hskip
          rintro ⟨r, hr, hlt⟩
          rw [hkey] at hr
          have := hle' r hr
          omega
    · split
      · -- another one of the round has informed `a`, and this one does now
        rename_i hexecutes
        obtain ⟨rfl, hcommitted, hlatest⟩ := hexecutes
        have hlogged : other.round ∈ (σ.db a).rounds "coordinator" := by
          refine h.logged i other hi hother a ?_
          have hcourse := (hcandidates i other hi hother).2
          rw [hcourse.promisedBy ((hprov.wf i other hother).proposed_of_committed hinf.committed),
            ← hcourse.livePaxosStubs hinf.committed]
          exact hinf.mem
        have hupper : inv.round ≤ R := by
          refine hle inv.round ((hrounds a inv.round).mpr (Or.inl ⟨rfl, ?_, hkey.symm, rfl⟩))
          rintro rfl
          cases hcall with
          | ping hphase => simp [Invocation.Committed, hphase] at hcommitted
        have hlower : ¬ inv.round < other.round := by
          intro hlt
          refine hlatest ⟨other.round, ?_, hlt⟩
          rw [hkey]
          exact hlogged
        have hsame : inv.round = R := by omega
        exact congrArg Operation.value (hagrees.proposal hprov hcandidates hi hn hother hrun
          hround hsame hinf.committed hcommitted)
      · exact h.coordinator i other hi hother hround a hinf hle'

end Deliver

theorem tracks_step (h : Tracks n R σ0 σ) (hprov : Provenance σ)
    (hcandidates : Candidates live stubs n σ) (hagrees : RoundAgrees live stubs n R σ)
    (hshares : SharesReplicas stubs σ)
    (hnamed : ∀ r op, σ.ProposalFrom "coordinator" r op →
      op.type = .setCoordinator ∧ op.value ∈ stubs.addrs)
    (hstep : ElectsCases live n σ act σ') : Tracks n R σ0 σ' := by
  cases hstep with
  | refuse hruns hservers =>
    refine ⟨fun i inv hn hi a ha => ?_, fun a r hr => ?_, fun i inv hn hi hround a hinf hle => ?_⟩
    · rw [db, hservers]
      rw [hruns] at hi
      exact h.logged i inv hn hi a ha
    · rw [db, hservers] at hr
      rw [hruns]
      exact h.origin a r hr
    · rw [db, hservers] at hle
      rw [hservers]
      rw [hruns] at hi
      exact h.coordinator i inv hn hi hround a hinf hle
  | enter hlive hruns hservers => exact h.enter hruns hservers
  | @deliver _ run inv _ receiver _ _ randomFail hn hrun hlive hcall hdelivers hevolves hruns
      hservers =>
    refine h.deliver hprov hcandidates hagrees hn hrun hcall hdelivers hevolves hruns hservers
      fun hcommitted => ?_
    have hfrom := proposalFrom_proposal hrun (hprov.adopted run inv hrun)
      ((hprov.wf run inv hrun).proposed_of_committed hcommitted)
    rw [hcandidates.key hn hrun] at hfrom
    rw [hshares]
    exact hnamed _ _ hfrom
  | @lose _ _ run inv receiver msg hn hrun hdead hcall hruns hservers =>
    refine h.of_set hrun hruns hservers (.receives (.ofLost hcall)) rfl (fun a hinf => ?_)
      (hprov.wf run inv hrun)
    obtain ⟨todo, hphase⟩ := (hcandidates run inv hn hrun).2.ping_of_dead hcall hdead
    rw [Invocation.Informed, hphase] at hinf
    exact hinf.elim
  | @advance _ _ run inv inv' hn hrun hadvance hruns hservers =>
    have hwf := hprov.wf run inv hrun
    refine h.of_set hrun hruns hservers (.advances hwf hadvance) ?_
      (fun a hinf => hadvance.informed hinf) hwf
    cases hadvance <;> rfl

end System

/-! ## Elections in a cluster -/

namespace Cluster

variable {live : List Addr} {stubs : PaxosStubs} {n : Nat} {R : Int} {c0 c c' : Cluster}

/-- A step of the elections that the front-ends of the servers `live` start. -/
def Elects (live : List Addr) (n : Nat) (c : Cluster) : Action → Prop
  | .paxos act => c.system.Elects live n act
  | .electNewCoordinator server _ => server ∈ live
  | .initializeServer .. => False
  | .crash _ => False

instance (live : List Addr) (n : Nat) (c : Cluster) : ∀ act, Decidable (c.Elects live n act)
  | .paxos act => inferInstanceAs (Decidable (c.system.Elects live n act))
  | .electNewCoordinator _ _ => inferInstanceAs (Decidable (_ ∈ _))
  | .initializeServer .. => isFalse id
  | .crash _ => isFalse id

/-- The step promises the round `R` again only when a live server holds an
acceptance for it. -/
def PromisesKept (live : List Addr) (n : Nat) (R : Int) (c : Cluster) : Action → Prop
  | .paxos act => c.system.PromisesKept live n R act
  | _ => True

instance (live : List Addr) (n : Nat) (R : Int) (c : Cluster) :
    ∀ act, Decidable (c.PromisesKept live n R act)
  | .paxos act => inferInstanceAs (Decidable (c.system.PromisesKept live n R act))
  | .electNewCoordinator .. => isTrue trivial
  | .initializeServer .. => isTrue trivial
  | .crash _ => isTrue trivial

/-- When the elections have returned, and one of them OK, the live servers hold
one coordinator. -/
def ElectsOne (live : List Addr) (n : Nat) (c : Cluster) : Prop :=
  (∀ inv ∈ c.system.runs.drop n, ¬ inv.Active) →
    (∃ inv ∈ c.system.runs.drop n, inv.Returned true) →
    ∀ a ∈ live, ∀ b ∈ live, (c.system.servers a).paxosStubsMap.coordinator =
      (c.system.servers b).paxosStubsMap.coordinator

/-- What is proposed on the reserved key names a listed server. -/
theorem Origins.named (h : Origins c) (hshares : System.SharesReplicas stubs c.system) {r : Int}
    {op : Operation} (hfrom : c.system.ProposalFrom "coordinator" r op) :
    op.type = .setCoordinator ∧ op.value ∈ stubs.addrs := by
  obtain ⟨i, inv, hi, hkey, _, _, _, rfl⟩ := hfrom
  have hadmitted := h.admitted i inv hi
  rw [Invocation.key] at hkey
  generalize inv.request = request at hadmitted hkey
  cases hadmitted with
  | update hupdate hne => exact absurd hkey hne
  | @election a hlisted =>
    rw [hshares] at hlisted
    exact ⟨rfl, hlisted⟩

/-- A step of the elections, seen from the Paxos part. -/
theorem Origins.elects_cases (h : Origins c) {act : Action} (helects : c.Elects live n act)
    (hkept : c.PromisesKept live n R act) (hstep : c.step act = some c') :
    ∃ act', System.ElectsCases live n c.system act' c'.system ∧
      c.system.PromisesKept live n R act' := by
  cases step_cases hstep with
  | @paxos act σ hpermits hpaxos =>
    exact ⟨act, System.elects_cases h.provenance helects (System.step_cases hpaxos), hkept⟩
  | @electNewCoordinator server context hlisted =>
    refine ⟨.start server (.electCoordinator "coordinator" server) context, ?_, trivial⟩
    rw [ownElection, h.address]
    exact System.elects_cases h.provenance ⟨helects, rfl⟩ (start_cases c.system _ _ _)
  | crash server => exact helects.elim
  | _ => exact helects.elim

/-- What the elections keep from the start of the phase on. -/
structure Campaign (live : List Addr) (stubs : PaxosStubs) (n : Nat) (R : Int)
    (c0 c : Cluster) : Prop where
  candidates : System.Candidates live stubs n c.system
  agrees : System.RoundAgrees live stubs n R c.system
  tracks : System.Tracks n R c0.system c.system

theorem campaign_of_reachable {C : Cluster → Action → Prop}
    (h0 : (cluster (System.SharesReplicas stubs)).Reachable C c0)
    (hlisted : ∀ a ∈ live, a ∈ stubs.addrs) (hn : n = c0.system.runs.length)
    (h : ((cluster (System.SharesReplicas stubs)).startingAt c0).Reachable
      (fun c act => c.Elects live n act ∧ c.PromisesKept live n R act) c) :
    Campaign live stubs n R c0 c := by
  refine ActionSystem.Reachable.invariant (I := Campaign live stubs n R c0) ?_ ?_ h
  · rintro c rfl
    refine ⟨fun i inv hi hrun => ?_, System.roundAgrees_start hn.ge, System.tracks_start hn.ge⟩
    rw [List.getElem?_eq_none (by omega)] at hrun
    cases hrun
  · intro c act c' hreach hcond hstep hcampaign
    have hall := h0.of_startingAt hreach
    have horigins := origins_of_reachable hall
    have hshares := sharesReplicas_of_reachable hall
    obtain ⟨act', hcases, hkept⟩ := horigins.elects_cases hcond.1 hcond.2 hstep
    obtain ⟨hcandidates, hagrees, htracks⟩ := hcampaign
    have hprov := horigins.provenance
    exact ⟨System.candidates_step hprov hshares hlisted hcandidates hcases,
      System.roundAgrees_step hprov hagrees hcandidates hlisted hkept hcases,
      System.tracks_step htracks hprov hcandidates hagrees hshares
        (fun r op => horigins.named hshares) hcases⟩

/-- From any reachable state, let live servers nominate themselves in any
number of overlapping elections that promise their highest round again only
when a live server holds an acceptance for it.  If no live server has logged a
higher round before, the live servers end with one coordinator. -/
theorem electsOne {C : Cluster → Action → Prop}
    (h0 : (cluster (System.SharesReplicas stubs)).Reachable C c0)
    (hlisted : ∀ a ∈ live, a ∈ stubs.addrs) (hn : n = c0.system.runs.length)
    (h : ((cluster (System.SharesReplicas stubs)).startingAt c0).Reachable
      (fun c act => c.Elects live n act ∧ c.PromisesKept live n R act) c)
    (hhighest : IsGreatest { r | ∃ inv ∈ c.system.runs.drop n, inv.round = r } R)
    (hseen : ∀ a ∈ live, ∀ r ∈ (c0.system.servers a).kvDb.rounds "coordinator", r ≤ R) :
    ElectsOne live n c := by
  intro hreturned _
  obtain ⟨hcandidates, hagrees, htracks⟩ := campaign_of_reachable h0 hlisted hn h
  have hindex : ∀ inv ∈ c.system.runs.drop n, ∃ i, n ≤ i ∧ c.system.runs[i]? = some inv := by
    intro inv hmem
    obtain ⟨k, hk⟩ := List.mem_iff_getElem?.mp hmem
    rw [List.getElem?_drop] at hk
    exact ⟨n + k, by omega, hk⟩
  have hmem : ∀ (i : Nat) (inv : Invocation), n ≤ i → c.system.runs[i]? = some inv →
      inv ∈ c.system.runs.drop n := by
    intro i inv hi hrun
    refine List.mem_iff_getElem?.mpr ⟨i - n, ?_⟩
    rw [List.getElem?_drop, show n + (i - n) = i by omega]
    exact hrun
  obtain ⟨⟨inv, hinv, hround⟩, hupper⟩ := hhighest
  obtain ⟨i, hi, hrun⟩ := hindex inv hinv
  -- the election has informed every live server, and no higher round is there
  have hcoordinator : ∀ a ∈ live,
      (c.system.servers a).paxosStubsMap.coordinator = inv.proposal.value := by
    intro a ha
    refine htracks.coordinator i inv hi hrun hround a ?_ fun r hr => ?_
    · have hcourse := (hcandidates i inv hi hrun).2
      have hnot := hreturned inv hinv
      have hreached := Invocation.mem_reached.mpr ⟨hlisted a ha, ha⟩
      cases hphase : inv.phase with
      | returned status =>
        rw [Invocation.OnCourse, hphase] at hcourse
        rw [Invocation.Informed, hphase]
        exact ⟨hcourse.2.2.2, hcourse.1 ▸ hreached⟩
      | _ => exact absurd (by simp [Invocation.Active, hphase]) hnot
    · rcases htracks.origin a r hr with hold | ⟨j, other, hj, hother, rfl⟩
      · exact hseen a ha r hold
      · exact hupper ⟨other, hmem j other hj hother, rfl⟩
  intro a ha b hb
  rw [hcoordinator a ha, hcoordinator b hb]

/-- The election `run` finds the first two of three replicas. -/
def findsTwo (run : Nat) : List PaxosKVStore.Action :=
  PaxosKVStore.Action.calls run 2 ++ [.call run .lost false, .advance run]

/-- `a` and `b` nominate themselves while `c` is down, both in round 1.  `b`
asks for promises when `a` has accepted its own proposal. -/
def followingElections : List Action :=
  [.electNewCoordinator "a" {}, .electNewCoordinator "b" {}] ++
  (findsTwo 0 ++ findsTwo 1 ++ PaxosKVStore.Action.loop 0 2 ++ PaxosKVStore.Action.calls 0 1 ++
    PaxosKVStore.Action.loop 1 2 ++ PaxosKVStore.Action.loop 0 1 ++
    PaxosKVStore.Action.loop 1 2 ++ PaxosKVStore.Action.calls 0 1 ++
    PaxosKVStore.Action.loop 1 2 ++ PaxosKVStore.Action.loop 0 1).map .paxos

set_option maxRecDepth 20000 in
/-- Both servers follow `a` then. -/
theorem electsOne_followingElections :
    ∃ c : Cluster, (∀ inv ∈ c.system.runs, inv.Returned true) ∧ c.system.runs.length = 2 ∧
      (c.system.servers "a").paxosStubsMap.coordinator =
        (c.system.servers "b").paxosStubsMap.coordinator := by
  have hrun : ∃ c ∈ ((cluster (System.SharesReplicas
      (.ofReplicas ["a", "b", "c"]))).startingAt (fresh ["a", "b", "c"])).execWhere
      (fun c act => c.Elects ["a", "b"] 0 act ∧ c.PromisesKept ["a", "b"] 0 1 act)
      (fresh ["a", "b", "c"]) followingElections,
      (∀ inv ∈ c.system.runs, inv.Returned true ∧ inv.round = 1) ∧ c.system.runs.length = 2 := by
    decide +kernel
  obtain ⟨c, hreach, hall, hlength⟩ :=
    ActionSystem.exists_reachable_of_execWhere (rfl : fresh ["a", "b", "c"] = _) hrun
  have hfresh : (cluster (System.SharesReplicas (.ofReplicas ["a", "b", "c"]))).Reachable
      (fun _ _ => True) (fresh ["a", "b", "c"]) :=
    .start ⟨fresh_isInitial ["a", "b", "c"], fun _ => rfl⟩
  have hreturned : ∀ inv ∈ c.system.runs, inv.Returned true := fun inv hinv => (hall inv hinv).1
  obtain ⟨inv, hinv⟩ : ∃ inv, inv ∈ c.system.runs := List.exists_mem_of_length_pos (by omega)
  refine ⟨c, hreturned, hlength, ?_⟩
  refine electsOne hfresh (by decide) rfl hreach ⟨⟨inv, hinv, (hall inv hinv).2⟩, ?_⟩
    (by decide) ?_ ⟨inv, hinv, hreturned inv hinv⟩ "a" (by decide) "b" (by decide)
  · rintro r ⟨other, hother, rfl⟩
    exact le_of_eq (hall other hother).2
  · intro other hother hactive
    obtain ⟨status, hphase, _⟩ := hreturned other hother
    rw [Invocation.Active, hphase] at hactive
    exact hactive

/-- The same, but both have their promises before there is an acceptance, and
their `Inform` calls cross. -/
def crossingElections : List Action :=
  [.electNewCoordinator "a" {}, .electNewCoordinator "b" {}] ++
  (findsTwo 0 ++ findsTwo 1 ++ PaxosKVStore.Action.loop 0 2 ++ PaxosKVStore.Action.loop 1 2 ++
    PaxosKVStore.Action.loop 0 2 ++ PaxosKVStore.Action.loop 1 2 ++
    PaxosKVStore.Action.calls 0 1 ++ PaxosKVStore.Action.loop 1 2 ++
    PaxosKVStore.Action.loop 0 1).map .paxos

set_option maxRecDepth 20000 in
/-- Both elections return OK, `a` follows `b`, and `b` follows `a`. -/
theorem not_electsOne_crossingElections :
    ∃ c0 c : Cluster, (cluster (System.SharesReplicas (.ofReplicas ["a", "b", "c"]))).Reachable
      (fun _ _ => True) c0 ∧
      ((cluster (System.SharesReplicas (.ofReplicas ["a", "b", "c"]))).startingAt c0).Reachable
        (Elects ["a", "b"] c0.system.runs.length) c ∧
      ¬ ElectsOne ["a", "b"] c0.system.runs.length c := by
  have hrun : ∃ c ∈ ((cluster (System.SharesReplicas
      (.ofReplicas ["a", "b", "c"]))).startingAt (fresh ["a", "b", "c"])).execWhere
      (Elects ["a", "b"] 0) (fresh ["a", "b", "c"]) crossingElections,
      (∀ inv ∈ c.system.runs, inv.Returned true) ∧ c.system.runs.length = 2 ∧
      (c.system.servers "a").paxosStubsMap.coordinator = "b" ∧
      (c.system.servers "b").paxosStubsMap.coordinator = "a" := by
    decide +kernel
  obtain ⟨c, hreach, hreturned, hlength, ha, hb⟩ :=
    ActionSystem.exists_reachable_of_execWhere (rfl : fresh ["a", "b", "c"] = _) hrun
  refine ⟨fresh ["a", "b", "c"], c, .start ⟨fresh_isInitial ["a", "b", "c"], fun _ => rfl⟩,
    hreach, fun hone => ?_⟩
  obtain ⟨inv, hinv⟩ : ∃ inv, inv ∈ c.system.runs := List.exists_mem_of_length_pos (by omega)
  have hsame := hone (fun other hother hactive => ?_) ⟨inv, hinv, hreturned inv hinv⟩
    "a" (by decide) "b" (by decide)
  · rw [ha, hb] at hsame
    exact absurd hsame (by decide)
  · obtain ⟨status, hphase, _⟩ := hreturned other hother
    rw [Invocation.Active, hphase] at hactive
    exact hactive

end Cluster

end PaxosKVStore
