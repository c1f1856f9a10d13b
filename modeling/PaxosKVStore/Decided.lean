import PaxosKVStore.Origins
import PaxosKVStore.Quorums

/-!
# What servers hold was decided

An entry of a data map and a coordinator are there because some invocation
reached its `Propose` majority with them.  They travel on from server to
server, in the snapshots of recoveries and in the answers of discoveries, and
`Decided` follows them on all these ways.

`accepted_by_majority` states it with the answers of the acceptors, and
`carries_request` with the requests that the operations come from.
-/

namespace PaxosKVStore

open Majority

namespace System

/-- An invocation on `key` reached its `Propose` majority with `op`. -/
def CommittedOn (σ : System) (key : String) (op : Operation) : Prop :=
  ∃ (i : Nat) (inv : Invocation), σ.runs[i]? = some inv ∧ inv.Committed ∧ inv.key = key ∧
    inv.proposal = op

variable {σ σ' : System} {key : String} {op : Operation}

theorem CommittedOn.continues (hwf : WfRuns σ) (hcont : Continues σ σ')
    (h : σ.CommittedOn key op) : σ'.CommittedOn key op := by
  obtain ⟨i, inv, hi, hcommitted, hkey, hop⟩ := h
  obtain ⟨inv', hi', hevolves⟩ := hcont i inv hi
  have hproposed := (hwf i inv hi).proposed_of_committed hcommitted
  refine ⟨i, inv', hi', (hevolves.committed hcommitted).1, hevolves.key.trans hkey, ?_⟩
  rw [(hevolves.proposed hproposed).2.2, hop]

/-- What an invocation informs of is what a request for its key asked for. -/
theorem CommittedOn.request (hprov : Provenance σ) (h : σ.CommittedOn key op) :
    ∃ r, σ.ProposalFrom key r op := by
  obtain ⟨i, inv, hi, hcommitted, rfl, rfl⟩ := h
  have hproposed := (hprov.wf i inv hi).proposed_of_committed hcommitted
  exact ⟨inv.round, proposalFrom_proposal hi (hprov.adopted i inv hi) hproposed⟩

/-- A step executes what an invocation informs of. -/
theorem executed_committedOn (hprov : Provenance σ) {i : Nat} {a : Addr} {msg : Message}
    {reply : Reply} {changed : Bool} (h : .handled i a msg reply changed ∈ σ.history)
    (hexecuted : msg.executed reply = some (key, op)) : σ.CommittedOn key op := by
  obtain ⟨inv, hi, hsends⟩ := hprov.sent i a msg (hprov.handled i a msg reply changed h)
  obtain ⟨hcommitted, rfl, rfl⟩ := hsends.executed (hprov.wf i inv hi) hexecuted
  exact ⟨i, inv, hi, hcommitted, rfl, rfl⟩

/-- A handled call that left a value was executed with it, or the value was
there before. -/
theorem value_of_handled {s s' : MultiPaxosServiceImpl} {msg : Message} {reply : Reply}
    (h : Handled s s' msg reply) {key : String} {value : String}
    (hvalue : s'.kvDb.getValue key = some value) :
    s.kvDb.getValue key = some value ∨
      msg.executed reply = some (key, { type := .set, value := value }) := by
  rw [h.value] at hvalue
  split at hvalue
  · rename_i key' op hexecuted
    split at hvalue
    · rename_i hkey
      obtain ⟨type, opValue⟩ := op
      cases type with
      | set =>
        cases hvalue
        right
        rw [hexecuted, hkey]
      | delete => cases hvalue
      | setCoordinator => exact Or.inl hvalue
      | notSet => exact Or.inl hvalue
    · exact Or.inl hvalue
  · exact Or.inl hvalue

/-- A handled call that left a coordinator was executed with it, or it was
there before. -/
theorem coordinator_of_handled {s s' : MultiPaxosServiceImpl} {msg : Message} {reply : Reply}
    (h : Handled s s' msg reply) :
    s'.paxosStubsMap.coordinator = s.paxosStubsMap.coordinator ∨
      ∃ key, msg.executed reply =
        some (key, { type := .setCoordinator, value := s'.paxosStubsMap.coordinator }) := by
  have hcoordinator := h.coordinator
  split at hcoordinator
  · rename_i key op hexecuted
    split at hcoordinator
    · rename_i hset
      obtain ⟨type, value⟩ := op
      obtain ⟨rfl, _⟩ := hset
      refine Or.inr ⟨key, ?_⟩
      rw [hexecuted, hcoordinator]
    · exact Or.inl hcoordinator
  · exact Or.inl hcoordinator

end System

namespace Cluster

variable {c c' : Cluster}

/-- One request for `key` asked for `op`. -/
def AskedFor (c : Cluster) (key : String) (op : Operation) : Prop :=
  ∃ (i : Nat) (inv : Invocation), c.system.runs[i]? = some inv ∧ inv.key = key ∧
    inv.request.Admitted c.system.servers ∧ inv.request.setProposeValue = op

theorem Origins.askedFor (h : Origins c) {key : String} {r : Int} {op : Operation}
    (hfrom : c.system.ProposalFrom key r op) : c.AskedFor key op := by
  obtain ⟨i, inv, hi, hkey, _, _, _, rfl⟩ := hfrom
  exact ⟨i, inv, hi, hkey, h.admitted i inv hi, rfl⟩

theorem AskedFor.type_iff {key : String} {op : Operation} (h : c.AskedFor key op) :
    op.type = .setCoordinator ↔ key = "coordinator" := by
  obtain ⟨i, inv, _, rfl, hadmitted, rfl⟩ := h
  exact hadmitted.type_iff

/-! ## Entries, snapshots and discoveries -/

/-- What a server in `Initialize` has copied or was told was decided. -/
def PhaseDecided (σ : System) : Initializing → Prop
  | .discovering _ found => ∀ name ∈ found.coordinators,
      σ.CommittedOn "coordinator" { type := .setCoordinator, value := name }
  | .copying _ kvMap => ∀ key value, kvMap.lookup key = some value →
      σ.CommittedOn key { type := .set, value := value }
  | .restoring kvMap _ => ∀ key value, (key, value) ∈ kvMap →
      σ.CommittedOn key { type := .set, value := value }
  | _ => True

structure Decided (c : Cluster) : Prop where
  values : ∀ a key value, (c.system.servers a).kvDb.getValue key = some value →
    c.system.CommittedOn key { type := .set, value := value }
  coordinators : ∀ a, (c.system.servers a).paxosStubsMap.coordinator ≠ "" →
    c.system.CommittedOn "coordinator"
      { type := .setCoordinator, value := (c.system.servers a).paxosStubsMap.coordinator }
  phases : ∀ a, PhaseDecided c.system (c.initializing a)

theorem decided_init (h : c.IsInitial) : Decided c where
  values a key value hvalue := by simp [h.system.kvDb a] at hvalue
  coordinators a hne := absurd (h.system.coordinator a) hne
  phases a := by
    rw [h.initializing a]
    trivial

theorem PhaseDecided.continues {σ σ' : System} (hwf : σ.WfRuns)
    (hcont : System.Continues σ σ') {phase : Initializing} (h : PhaseDecided σ phase) :
    PhaseDecided σ' phase := by
  cases phase with
  | discovering todo found => exact fun name hname => (h name hname).continues hwf hcont
  | copying coordinator kvMap =>
    exact fun key value hlookup => (h key value hlookup).continues hwf hcont
  | restoring kvMap paxosLogs =>
    exact fun key value hmem => (h key value hmem).continues hwf hcont
  | _ => trivial

/-- An answer to the discovery names a coordinator that was decided. -/
theorem Decided.heard (h : Decided c) {found : Discovered}
    (hfound : ∀ name ∈ found.coordinators,
      c.system.CommittedOn "coordinator" { type := .setCoordinator, value := name })
    (fate : Fate) (addr : Addr) :
    ∀ name ∈ (found.heard addr
        (if fate = .delivered then some ((c.system.servers addr).getCoordinator {})
        else none)).coordinators,
      c.system.CommittedOn "coordinator" { type := .setCoordinator, value := name } := by
  intro name hname
  split at hname
  · by_cases hempty : (c.system.servers addr).paxosStubsMap.coordinator = ""
    · simp only [MultiPaxosServiceImpl.getCoordinator, PaxosStubsMap.getCoordinator, hempty,
        Discovered.heard] at hname
      exact hfound name hname
    · simp only [MultiPaxosServiceImpl.getCoordinator, PaxosStubsMap.getCoordinator, hempty,
        Discovered.heard, Bool.false_eq_true, if_false, Status.ok_OK, if_true,
        List.mem_insert_iff] at hname
      rcases hname with rfl | hname
      · exact h.coordinators addr hempty
      · exact hfound name hname
  · exact hfound name hname

theorem Decided.phases_change (horigins : Origins c) (h : Decided c) (hchange : Change c c')
    (a : Addr) : PhaseDecided c'.system (c'.initializing a) := by
  have hwf := horigins.provenance.wf
  refine PhaseDecided.continues hwf (hchange.continues hwf) ?_
  cases hchange with
  | paxos hstep hstart => exact h.phases a
  | @goTo server phase henters =>
    have hold := h.phases server
    refine goTo_all h.phases ?_ a
    cases henters with
    | discovering todo => exact fun name hname => by cases hname
    | heard fate hphase =>
      rw [hphase] at hold
      exact h.heard hold fate _
    | copying coordinator => exact h.values coordinator
    | restoring hphase hresponse =>
      rw [hphase] at hold
      intro key value hmem
      subst hresponse
      exact hold key value ((RestoreOrder.mem_kvMap _ key value).mp hmem)
    | electing run => trivial
    | recovering => trivial
    | returned status => trivial
  | follow hphase hname => exact h.phases a
  | @setValue server index key value kvMap paxosLogs hphase hentry =>
    have hold := h.phases server
    rw [hphase] at hold
    refine goTo_all (c := c.setServer server _) h.phases ?_ a
    exact fun key value hmem => hold key value (List.mem_of_mem_eraseIdx hmem)
  | @addPaxosLog server index key round log paxosLogs hphase hentry =>
    refine goTo_all (c := c.setServer server _) h.phases ?_ a
    exact fun key value hmem => by cases hmem
  | crash server => exact crash_all h.phases trivial trivial server a

/-- A step of the Paxos part leaves entries and coordinators that were there,
or that it has executed. -/
theorem Decided.paxos (horigins : Origins c) (h : Decided c) {act : PaxosKVStore.Action}
    {σ : System} (hstep : System.StepCases c.system act σ)
    (horigins' : Origins { c with system := σ }) :
    (∀ a key value, (σ.servers a).kvDb.getValue key = some value →
      σ.CommittedOn key { type := .set, value := value }) ∧
    ∀ a, (σ.servers a).paxosStubsMap.coordinator ≠ "" →
      σ.CommittedOn "coordinator"
        { type := .setCoordinator, value := (σ.servers a).paxosStubsMap.coordinator } := by
  have hwf := horigins.provenance.wf
  have hcont := System.step_continues hwf hstep
  have hprov' : σ.Provenance := horigins'.provenance
  cases System.step_effect hstep with
  | quiet new hhistory hnew hservers =>
    constructor
    · intro a key value hvalue
      have hsame : (σ.servers a).kvDb.getValue key = (c.system.servers a).kvDb.getValue key :=
        (hservers a).value key
      rw [hsame] at hvalue
      exact (h.values a key value hvalue).continues hwf hcont
    · intro a hne
      have hsame : (σ.servers a).paxosStubsMap.coordinator =
          (c.system.servers a).paxosStubsMap.coordinator := (hservers a).coordinator
      rw [hsame] at hne ⊢
      exact (h.coordinators a hne).continues hwf hcont
  | handled run receiver msg context randomFail new hhistory hnew hhandled hother =>
    have hevent : .handled run receiver msg (c.system.answer receiver msg context randomFail)
        (c.system.dataChanged receiver msg context randomFail) ∈ σ.history := by
      rw [hhistory]
      exact List.mem_cons_self
    constructor
    · intro a key value hvalue
      by_cases ha : a = receiver
      · subst ha
        rcases System.value_of_handled hhandled hvalue with hold | hexecuted
        · exact (h.values a key value hold).continues hwf hcont
        · exact System.executed_committedOn hprov' hevent hexecuted
      · rw [hother a ha] at hvalue
        exact (h.values a key value hvalue).continues hwf hcont
    · intro a hne
      by_cases ha : a = receiver
      · subst ha
        rcases System.coordinator_of_handled hhandled with hsame | ⟨key, hexecuted⟩
        · rw [hsame] at hne ⊢
          exact (h.coordinators a hne).continues hwf hcont
        · -- only the reserved key has an operation that sets a coordinator
          have hcommitted := System.executed_committedOn hprov' hevent hexecuted
          obtain ⟨r, hfrom⟩ := hcommitted.request hprov'
          have hkey := (horigins'.askedFor hfrom).type_iff.mp rfl
          rw [hkey] at hcommitted
          exact hcommitted
      · rw [hother a ha] at hne ⊢
        exact (h.coordinators a hne).continues hwf hcont

/-- A server may be left with anything that was decided. -/
theorem Decided.update (h : Decided c) {server : Addr} {service : MultiPaxosServiceImpl}
    (hvalues : ∀ key value, service.kvDb.getValue key = some value →
      c.system.CommittedOn key { type := .set, value := value })
    (hcoordinator : service.paxosStubsMap.coordinator ≠ "" →
      c.system.CommittedOn "coordinator"
        { type := .setCoordinator, value := service.paxosStubsMap.coordinator })
    {initializing : Addr → Initializing} {stopped : List Nat}
    (hphases : ∀ a, PhaseDecided c.system (initializing a)) :
    Decided
      { system :=
          { c.system with servers := Function.update c.system.servers server service }
        initializing := initializing
        stopped := stopped } := by
  refine ⟨fun a key value hvalue => ?_, fun a hne => ?_, hphases⟩
  · by_cases ha : a = server
    · subst ha
      simp only [Function.update_self] at hvalue
      exact hvalues key value hvalue
    · simp only [Function.update_of_ne ha] at hvalue
      exact h.values a key value hvalue
  · by_cases ha : a = server
    · subst ha
      simp only [Function.update_self] at hne ⊢
      exact hcoordinator hne
    · simp only [Function.update_of_ne ha] at hne ⊢
      exact h.coordinators a hne

theorem decided_change (horigins : Origins c) (h : Decided c) (hchange : Change c c') :
    Decided c' := by
  have hphases := h.phases_change horigins hchange
  cases hchange with
  | paxos hstep hstart =>
    obtain ⟨hvalues, hcoordinators⟩ :=
      h.paxos horigins hstep (origins_change horigins (.paxos hstep hstart))
    exact ⟨hvalues, hcoordinators, hphases⟩
  | goTo henters => exact ⟨h.values, h.coordinators, hphases⟩
  | @follow server coordinator todo found hphase hname =>
    have hold := h.phases server
    rw [hphase] at hold
    refine h.update ?_ ?_ hphases
    · exact h.values server
    · intro hne
      rw [PaxosStubsMap.coordinator_setCoordinator] at hne ⊢
      split_ifs at hne ⊢ with hlisted
      · exact hold coordinator hname
      · exact h.coordinators server hne
  | @setValue server index key value kvMap paxosLogs hphase hentry =>
    have hold := h.phases server
    rw [hphase] at hold
    refine h.update ?_ ?_ hphases
    · intro key' value' hvalue
      rw [KeyValueDataBase.getValue_setValue] at hvalue
      split at hvalue
      · rename_i hkey
        cases hvalue
        rw [hkey]
        exact hold key value (List.mem_of_getElem? hentry)
      · exact h.values server key' value' hvalue
    · exact h.coordinators server
  | @addPaxosLog server index key round log paxosLogs hphase hentry =>
    refine h.update ?_ ?_ hphases
    · exact h.values server
    · exact h.coordinators server
  | crash server =>
    refine h.update ?_ (fun hne => absurd rfl hne) hphases
    intro key value hvalue
    have hnone : (restarted (c.system.servers server)).kvDb.getValue key = none :=
      KeyValueDataBase.getValue_empty key
    rw [hnone] at hvalue
    cases hvalue

/-! ## The acceptors -/

/-- The counted acceptances are in the history, and an acceptance answers a
proposal. -/
structure AcceptancesSeen (σ : System) : Prop where
  counted : σ.AcceptancesHandled
  answers : ∀ i a msg status response changed,
    .handled i a msg (.propose status response) changed ∈ σ.history →
      ∃ request, msg = .propose request

theorem acceptancesSeen_step {σ σ' : System} {act : PaxosKVStore.Action}
    (hprov : σ.Provenance) (h : AcceptancesSeen σ) (hstep : System.StepCases σ act σ') :
    AcceptancesSeen σ' := by
  refine ⟨System.acceptancesHandled_step hprov h.counted hstep, ?_⟩
  intro i a msg status response changed hmem
  cases System.step_effect hstep with
  | quiet new hhistory hnew hservers =>
    rw [hhistory] at hmem
    rcases List.mem_append.mp hmem with hmem | hmem
    · exact absurd trivial (hnew _ hmem)
    · exact h.answers i a msg status response changed hmem
  | handled run receiver msg' context randomFail new hhistory hnew hhandled hother =>
    rw [hhistory] at hmem
    rcases List.mem_cons.mp hmem with heq | hmem
    · simp only [Event.handled.injEq] at heq
      obtain ⟨_, _, rfl, hreply, _⟩ := heq
      cases msg with
      | propose request => exact ⟨request, rfl⟩
      | _ => cases hreply
    · rcases List.mem_append.mp hmem with hmem | hmem
      · exact absurd trivial (hnew _ hmem)
      · exact h.answers i a msg status response changed hmem

/-- `a` answered OK to the `Propose` of the invocation `run` for `op`. -/
def Accepted (σ : System) (run : Nat) (a : Addr) (key : String) (op : Operation) : Prop :=
  ∃ request status response changed,
    .handled run a (.propose request) (.propose status response) changed ∈ σ.history ∧
      status.ok = true ∧ request.key = key ∧ request.operation = op

/-- An invocation on `key` had its `Propose` of `op` accepted by more than half
of the replicas that it found live. -/
def AcceptedByMajority (σ : System) (key : String) (op : Operation) : Prop :=
  ∃ (i : Nat) (inv : Invocation) (quorum : List Addr), σ.runs[i]? = some inv ∧
    inv.key = key ∧ inv.livePaxosStubs.Nodup ∧ quorum.Sublist inv.livePaxosStubs ∧
    inv.livePaxosStubs.length < 2 * quorum.length ∧
    ∀ a ∈ quorum, Accepted σ i a key op

theorem acceptedByMajority {σ : System} (hprov : σ.Provenance) (hseen : AcceptancesSeen σ)
    {key : String} {op : Operation} (h : σ.CommittedOn key op) :
    AcceptedByMajority σ key op := by
  obtain ⟨i, inv, hi, hcommitted, hkey, hop⟩ := h
  have hwf := hprov.wf i inv hi
  have hmajority := (hwf.committed hcommitted).2.1
  refine ⟨i, inv, inv.acceptedBy, hi, hkey, hwf.nodup.sublist hwf.live, hmajority.sublist,
    ?_, fun a ha => ?_⟩
  · have hhalf := hmajority.half_lt
    omega
  · -- the acceptance answers the proposal of the invocation
    obtain ⟨e, he, hacceptor⟩ := List.mem_filterMap.mp (hseen.counted i inv hi a ha)
    cases e with
    | handled run receiver msg reply changed =>
      cases reply with
      | propose status response =>
        simp only [Event.acceptor, Option.ite_none_right_eq_some, Option.some.injEq] at hacceptor
        obtain ⟨⟨rfl, hok⟩, rfl⟩ := hacceptor
        obtain ⟨request, rfl⟩ := hseen.answers _ _ _ _ _ _ he
        obtain ⟨inv', hi', _, rfl⟩ := hprov.sent _ _ _ (hprov.handled _ _ _ _ _ he)
        rw [hi] at hi'
        cases hi'
        exact ⟨_, status, response, changed, he, hok, hkey, hop⟩
      | _ => cases hacceptor
    | _ => cases hacceptor

/-- What every change keeps of all this. -/
structure Known (c : Cluster) : Prop where
  origins : Origins c
  decided : Decided c
  seen : AcceptancesSeen c.system

theorem known_change {c c' : Cluster} (h : Known c) (hchange : Change c c') : Known c' := by
  refine ⟨origins_change h.origins hchange, decided_change h.origins h.decided hchange, ?_⟩
  cases hchange with
  | paxos hstep hstart => exact acceptancesSeen_step h.origins.provenance h.seen hstep
  | goTo henters => exact h.seen
  | follow hphase hname => exact ⟨h.seen.counted, h.seen.answers⟩
  | setValue hphase hentry => exact ⟨h.seen.counted, h.seen.answers⟩
  | addPaxosLog hphase hentry => exact ⟨h.seen.counted, h.seen.answers⟩
  | crash server => exact ⟨h.seen.counted, h.seen.answers⟩

theorem known_of_reachable {setup : System → Prop} {C : Cluster → Action → Prop} {c : Cluster}
    (h : (cluster setup).Reachable C c) : Known c := by
  refine invariant_of_changes (fun c hinit _ => ?_) (fun _ _ => known_change) h
  refine ⟨origins_init hinit, decided_init hinit, fun i inv hi => ?_, ?_⟩
  · simp [hinit.system.runs] at hi
  · intro i a msg status response changed hmem
    simp [hinit.system.history] at hmem

/-- In every reachable state, whatever is lost, late or crashed: each entry of
a data map was accepted by a majority of the live set of an invocation on its
key, and so was each coordinator on the reserved key. -/
theorem accepted_by_majority {setup : System → Prop} {C : Cluster → Action → Prop}
    {c : Cluster} (h : (cluster setup).Reachable C c) (a : Addr) :
    (∀ key value, (c.system.servers a).kvDb.getValue key = some value →
      AcceptedByMajority c.system key { type := .set, value := value }) ∧
    ((c.system.servers a).paxosStubsMap.coordinator ≠ "" →
      AcceptedByMajority c.system "coordinator"
        { type := .setCoordinator
          value := (c.system.servers a).paxosStubsMap.coordinator }) := by
  obtain ⟨horigins, hdecided, hseen⟩ := known_of_reachable h
  constructor
  · intro key value hvalue
    exact acceptedByMajority horigins.provenance hseen (hdecided.values a key value hvalue)
  · intro hne
    exact acceptedByMajority horigins.provenance hseen (hdecided.coordinators a hne)

/-- `a` starts, elects itself and recovers from itself. -/
def firstStart : List Action :=
  [.initializeServer "a" .start, .initializeServer "a" (.ask .delivered),
    .initializeServer "a" (.ask .lost), .initializeServer "a" .discovered,
    .initializeServer "a" .elect] ++ wholeRun 0 2 ++
  [.initializeServer "a" .elected, .initializeServer "a" .copyDataMap,
    .initializeServer "a" .copyPaxosLogs, .initializeServer "a" (.addPaxosLog 0),
    .initializeServer "a" .finish]

/-- After a `PutPair`, `b` crashes, finds `a` again and copies its data map. -/
def restartedFollower : List Action :=
  firstStart ++ [.paxos (.start "a" (.put "k" "x"))] ++ wholeRun 1 2 ++
  [.crash "b", .initializeServer "b" .start, .initializeServer "b" (.ask .delivered),
    .initializeServer "b" (.ask .delivered), .initializeServer "b" .discovered,
    .initializeServer "b" .copyDataMap, .initializeServer "b" .copyPaxosLogs,
    .initializeServer "b" (.setValue 0)]

set_option maxRecDepth 20000 in
/-- The recovered entry was accepted by a majority, before the crash. -/
theorem accepted_by_majority_restartedFollower :
    ∃ c : Cluster, (c.system.servers "b").kvDb.getValue "k" = some "x" ∧
      (c.system.servers "b").paxosStubsMap.coordinator = "a" ∧
      AcceptedByMajority c.system "k" { type := .set, value := "x" } ∧
      AcceptedByMajority c.system "coordinator" { type := .setCoordinator, value := "a" } := by
  have hrun : ∃ c ∈ (cluster (System.SharesReplicas (.ofReplicas ["a", "b"]))).execWhere
      (fun _ _ => True) (fresh ["a", "b"]) restartedFollower,
      (c.system.servers "b").kvDb.getValue "k" = some "x" ∧
        (c.system.servers "b").paxosStubsMap.coordinator = "a" := by
    decide +kernel
  obtain ⟨c, hreach, hvalue, hcoordinator⟩ := exists_reachable_fresh hrun
  obtain ⟨hvalues, hnamed⟩ := accepted_by_majority hreach "b"
  rw [hcoordinator] at hnamed
  exact ⟨c, hvalue, hcoordinator, hvalues "k" "x" hvalue, hnamed (by decide)⟩

/-! ## Requests -/

end Cluster

/-- The key and the operation that a message carries. -/
def Message.carried : Message → Option (String × Operation)
  | .ping => none
  | .prepare _ => none
  | .propose request => some (request.key, request.operation)
  | .inform request => some (request.key, request.acceptance.operation)

namespace Cluster

/-- A log, a message that was sent or is in flight, or a data map has `op`
under `key`. -/
inductive Carries (c : Cluster) : String → Operation → Prop where
  | log {a : Addr} {key : String} {r : Int}
      (haccepted : 0 < ((c.system.servers a).kvDb.paxosLog key r).acceptedId) :
      Carries c key ((c.system.servers a).kvDb.paxosLog key r).operation
  | message {i : Nat} {a : Addr} {msg : Message} {key : String} {op : Operation}
      (hmsg : .sent i a msg ∈ c.system.history ∨ (i, a, msg) ∈ c.system.inFlight)
      (hcarried : msg.carried = some (key, op)) : Carries c key op
  | value {a : Addr} {key value : String}
      (hvalue : (c.system.servers a).kvDb.getValue key = some value) :
      Carries c key { type := .set, value := value }

theorem Known.askedFor {c : Cluster} (h : Known c) {key : String} {op : Operation}
    (hcarries : c.Carries key op) : c.AskedFor key op := by
  have hprov := h.origins.provenance
  cases hcarries with
  | @log a key r haccepted =>
    rcases (hprov.db a).accepted key r with hzero | ⟨_, hfrom⟩
    · have hzero' : ((c.system.servers a).kvDb.paxosLog key r).acceptedId = 0 := hzero
      omega
    · exact h.origins.askedFor hfrom
  | @message i a msg _ _ hmsg hcarried =>
    have hsent : .sent i a msg ∈ c.system.history := hmsg.elim id (hprov.inFlight i a msg)
    obtain ⟨inv, hi, hsends⟩ := hprov.sent i a msg hsent
    have hwf := hprov.wf i inv hi
    have hadopted := hprov.adopted i inv hi
    cases msg with
    | propose request =>
      obtain ⟨hproposed, rfl⟩ := hsends
      cases hcarried
      exact h.origins.askedFor (System.proposalFrom_proposal hi hadopted hproposed)
    | inform request =>
      obtain ⟨hcommitted, rfl⟩ := hsends
      cases hcarried
      have hproposed := hwf.proposed_of_committed hcommitted
      have hsame : inv.informReq.acceptance.operation = inv.proposal := by
        rw [Invocation.informReq, (hwf.committed hcommitted).2.2]
        rfl
      rw [hsame]
      exact h.origins.askedFor (System.proposalFrom_proposal hi hadopted hproposed)
    | _ => cases hcarried
  | @value a _ value hvalue =>
    obtain ⟨r, hfrom⟩ := (h.decided.values a _ value hvalue).request hprov
    exact h.origins.askedFor hfrom

/-- What a request asks for: an update of a client under another key than the
reserved one, or a listed server as the coordinator under that key. -/
theorem AskedFor.separated {c : Cluster} {key : String} {op : Operation}
    (h : c.AskedFor key op) :
    op.type ≠ .notSet ∧ (op.type = .setCoordinator ↔ key = "coordinator") ∧
      (op.type = .setCoordinator →
        op.value ∈ (c.system.servers op.value).paxosStubsMap.stubs.addrs) := by
  refine ⟨?_, h.type_iff, ?_⟩
  · obtain ⟨i, inv, _, _, hadmitted, rfl⟩ := h
    exact hadmitted.type_ne_notSet
  · obtain ⟨i, inv, _, _, hadmitted, rfl⟩ := h
    generalize inv.request = request at hadmitted
    intro htype
    cases hadmitted with
    | @update request hupdate hkey =>
      have hadmitted : request.Admitted c.system.servers := .update hupdate hkey
      exact absurd (hadmitted.type_iff.mp htype) hkey
    | election hlisted => exact hlisted

/-- In every reachable state, whatever is lost, late or crashed: each
acceptance, message and entry carries the operation of one request for its
key, of a client or of a server that nominates itself.  So the reserved key is
apart from all others, and no data map has it. -/
theorem carries_request {setup : System → Prop} {C : Cluster → Action → Prop} {c : Cluster}
    (h : (cluster setup).Reachable C c) :
    (∀ key op, c.Carries key op → c.AskedFor key op ∧ op.type ≠ .notSet ∧
      (op.type = .setCoordinator ↔ key = "coordinator") ∧
      (op.type = .setCoordinator →
        op.value ∈ (c.system.servers op.value).paxosStubsMap.stubs.addrs)) ∧
    ∀ a, (c.system.servers a).kvDb.getValue "coordinator" = none := by
  have hknown := known_of_reachable h
  constructor
  · intro key op hcarries
    have hasked := hknown.askedFor hcarries
    exact ⟨hasked, hasked.separated⟩
  · intro a
    cases hvalue : (c.system.servers a).kvDb.getValue "coordinator" with
    | none => rfl
    | some value =>
      have htype := (hknown.askedFor (.value hvalue)).type_iff.mpr rfl
      cases htype

set_option maxRecDepth 20000 in
/-- A recovered entry carries the request of a client. -/
theorem carries_request_restartedFollower :
    ∃ c : Cluster, c.Carries "k" { type := .set, value := "x" } ∧
      c.AskedFor "k" { type := .set, value := "x" } := by
  have hrun : ∃ c ∈ (cluster (System.SharesReplicas (.ofReplicas ["a", "b"]))).execWhere
      (fun _ _ => True) (fresh ["a", "b"]) restartedFollower,
      (c.system.servers "b").kvDb.getValue "k" = some "x" := by
    decide +kernel
  obtain ⟨c, hreach, hvalue⟩ := exists_reachable_fresh hrun
  exact ⟨c, .value hvalue, ((carries_request hreach).1 _ _ (.value hvalue)).1⟩

end Cluster

end PaxosKVStore
