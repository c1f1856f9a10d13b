import PaxosKVStore.Deployment

/-!
# What a server recovers when it restarts

A server that restarts copies the database of the coordinator that the others
name.  If they do not agree on a running one, it nominates itself in round 1
of its empty log.  An older acceptance of round 1 wins over its nomination,
and then it copies from that nominee, who need not be the coordinator of
anybody else.  If the nominee is the server itself, it copies its own empty
database.

`recovered_iff` says of a single restart when the data comes back, and
`losesNothing_iff` of all restarts of a run.
-/

namespace PaxosKVStore

namespace Deployment

variable {stubs : PaxosStubs}

/-! ## A single restart -/

/-- All servers that know a coordinator know `coordinator`, and it knows one. -/
structure Known (stubs : PaxosStubs) (servers : Servers) (coordinator : Addr) : Prop where
  mem : coordinator ∈ stubs.addrs
  knows : (servers coordinator).paxosStubsMap.coordinator ≠ ""
  names : ∀ a ∈ stubs.addrs, (servers a).paxosStubsMap.coordinator ≠ "" →
    (servers a).paxosStubsMap.coordinator = coordinator

/-- If all replicas can be reached the discovery finds the known coordinator. -/
theorem agreed_iff_known {servers : Servers} {reach : Addr → Bool}
    {randomFail : Message → Addr → Bool} {server : Addr}
    (hsound : ∀ a, SoundServer stubs a (servers a))
    (hreach : ∀ a ∈ stubs.addrs, reach a = true) (c : Addr) :
    Agreed (.within reach randomFail) servers server c ↔ Known stubs servers c := by
  have hstubs : (servers server).paxosStubsMap.getPaxosStubs = stubs.addrs := by
    rw [PaxosStubsMap.getPaxosStubs, (hsound server).configured]
  have hdelivered : ∀ a ∈ stubs.addrs,
      (StartUp.within reach randomFail).discovery a = .delivered :=
    fun a ha => if_pos (hreach a ha)
  constructor
  · intro h
    have hmem := hstubs ▸ h.mem
    exact ⟨hmem, h.answers.2, fun a ha hknows =>
      h.names a (hstubs ▸ ha) ⟨hdelivered a ha, hknows⟩⟩
  · intro h
    refine ⟨hstubs ▸ h.mem, ⟨hdelivered c h.mem, h.knows⟩, fun a ha hanswers => ?_⟩
    exact h.names a (hstubs ▸ ha) hanswers.2

namespace Started

/-- All others were up, with one data map. -/
structure AmongEqual (stubs : PaxosStubs) (r : Started) : Prop where
  others : ∀ a ∈ stubs.addrs, a ≠ r.server → a ∈ r.running
  equal : ∀ a ∈ stubs.addrs, a ≠ r.server → ∀ b ∈ stubs.addrs, b ≠ r.server →
    (r.before a).kvDb.dataMap = (r.before b).kvDb.dataMap

instance (stubs : PaxosStubs) (r : Started) : Decidable (r.AmongEqual stubs) :=
  decidable_of_iff
    ((∀ a ∈ stubs.addrs, a ≠ r.server → a ∈ r.running) ∧
      ∀ a ∈ stubs.addrs, a ≠ r.server → ∀ b ∈ stubs.addrs, b ≠ r.server →
        (r.before a).kvDb.dataMap = (r.before b).kvDb.dataMap)
    ⟨fun h => ⟨h.1, h.2⟩, fun h => ⟨h.others, h.equal⟩⟩

/-- The server has the data of the others. -/
def Recovered (stubs : PaxosStubs) (r : Started) : Prop :=
  ∀ a ∈ stubs.addrs, a ≠ r.server →
    (r.after r.server).kvDb.dataMap = (r.after a).kvDb.dataMap

instance (stubs : PaxosStubs) (r : Started) : Decidable (r.Recovered stubs) :=
  inferInstanceAs (Decidable (∀ a ∈ stubs.addrs, a ≠ r.server →
    (r.after r.server).kvDb.dataMap = (r.after a).kvDb.dataMap))

/-- The servers that knew a coordinator knew the same one, or the election
was won by somebody else, or there was nothing to recover. -/
def FindsData (stubs : PaxosStubs) (r : Started) : Prop :=
  (∃ c, Known stubs r.before c) ∨
    Solo.nominee stubs r.before 1 r.server ≠ r.server ∨
      ∀ a ∈ stubs.addrs, a ≠ r.server → (r.before a).kvDb.dataMap = ∅

instance (stubs : PaxosStubs) (r : Started) : Decidable (r.FindsData stubs) :=
  decidable_of_iff
    ((∃ c ∈ stubs.addrs, (r.before c).paxosStubsMap.coordinator ≠ "" ∧
        ∀ a ∈ stubs.addrs, (r.before a).paxosStubsMap.coordinator ≠ "" →
          (r.before a).paxosStubsMap.coordinator = c) ∨
      Solo.nominee stubs r.before 1 r.server ≠ r.server ∨
        ∀ a ∈ stubs.addrs, a ≠ r.server → (r.before a).kvDb.dataMap = ∅)
    (or_congr_left
      ⟨fun ⟨c, hmem, hknows, hnames⟩ => ⟨c, hmem, hknows, hnames⟩,
        fun ⟨c, h⟩ => ⟨c, h.mem, h.knows, h.names⟩⟩)

/-- Where the record of a start comes from. -/
structure Origin (stubs : PaxosStubs) (r : Started) : Prop where
  listed : r.server ∈ stubs.addrs
  sound : ∀ a, SoundServer stubs a (r.before a)
  fresh : r.before r.server = freshServer stubs r.server
  ran : ∃ (reach : Addr → Bool) (randomFail : Message → Addr → Bool) (status : Status),
    (∀ a, a = r.server ∨ a ∈ r.running → reach a = true) ∧ status.ok = true ∧
    r.before.initializeServer (.within reach randomFail) r.server = some (status, r.after)

theorem Origin.nominates {r : Started} (h : r.Origin stubs) :
    Nominates stubs (Request.electCoordinator "coordinator" r.server).setProposeValue :=
  ⟨rfl, h.listed⟩

/-- A fresh server proposes in round 1, and the coordinator that its election
leaves it with is the nominee of that round. -/
theorem Origin.nominee {r : Started} (h : r.Origin stubs) {reach : Addr → Bool}
    {randomFail : Message → Addr → Bool} (hreach : ∀ a ∈ stubs.addrs, reach a = true)
    {chosen : Servers}
    (hrun : runPaxos (.within reach randomFail) r.before r.server
      (.electCoordinator "coordinator" r.server) = (Status.OK, chosen)) :
    (chosen r.server).paxosStubsMap.coordinator = Solo.nominee stubs r.before 1 r.server := by
  have hself : reach r.server = true := hreach _ h.listed
  have hcoordinator := @Solo.coordinator_of_election stubs r.before r.server _ reach
    randomFail h.sound h.listed hself rfl h.nominates (by rw [hrun]; rfl)
  have hround : Solo.round r.before r.server (.electCoordinator "coordinator" r.server) = 1 := by
    rw [Solo.round, h.fresh]
    exact congrArg (· + 1) KeyValueDataBase.latestRound_empty
  rw [hrun, Solo.proposal_of_election h.sound hreach, hround] at hcoordinator
  exact hcoordinator

/-- A server that starts among servers that are up copies the data of the
coordinator that is known, or of the nominee. -/
theorem Origin.source {r : Started} (h : r.Origin stubs)
    (hothers : ∀ a ∈ stubs.addrs, a ≠ r.server → a ∈ r.running) :
    ∃ c ∈ stubs.addrs, (Known stubs r.before c ∨
        ((∀ c, ¬ Known stubs r.before c) ∧ c = Solo.nominee stubs r.before 1 r.server)) ∧
      (r.after r.server).kvDb.dataMap = (r.before c).kvDb.dataMap ∧
      ∀ a, a ≠ r.server → (r.after a).kvDb.dataMap = (r.before a).kvDb.dataMap := by
  obtain ⟨reach, randomFail, status, hup, hok, hinit⟩ := h.ran
  have hreach : ∀ a ∈ stubs.addrs, reach a = true := by
    intro a ha
    by_cases hserver : a = r.server
    · exact hup a (Or.inl hserver)
    · exact hup a (Or.inr (hothers a ha hserver))
  have hself : reach r.server = true := hup _ (Or.inl rfl)
  obtain ⟨chosen, c, hchosen, hc, hlisted, hafter⟩ :=
    initializeServer_ok h.sound (if_pos hself) hinit hok
  replace hchosen : (Agreed (.within reach randomFail) r.before r.server c ∧
        chosen = r.before.follow r.server c) ∨
      ((∀ c, ¬ Agreed (.within reach randomFail) r.before r.server c) ∧
        runPaxos (.within reach randomFail) r.before r.server
          (.electCoordinator "coordinator" r.server) = (Status.OK, chosen)) := hchosen
  -- neither way to a coordinator changes a value
  have hvalues : ∀ a key, (chosen a).kvDb.getValue key = (r.before a).kvDb.getValue key := by
    intro a key
    rcases hchosen with ⟨_, rfl⟩ | ⟨_, hrun⟩
    · rw [kvDb_follow]
    · have := @Solo.value_of_election stubs r.before r.server _ (.within reach randomFail)
        h.sound rfl h.nominates a key
      rwa [hrun] at this
  refine ⟨c, hlisted, ?_, ?_, ?_⟩
  · have hknown := @agreed_iff_known stubs r.before reach randomFail r.server h.sound hreach
    simp only [← hknown]
    rcases hchosen with ⟨hagreed, _⟩ | ⟨hnone, hrun⟩
    · exact Or.inl hagreed
    · exact Or.inr ⟨hnone, hc ▸ h.nominee hreach hrun⟩
  · refine KeyValueDataBase.dataMap_ext fun key => ?_
    have hempty : (r.before r.server).kvDb.getValue key = none := by
      rw [h.fresh]
      exact KeyValueDataBase.getValue_empty key
    have hcopied : ((chosen c).recover.kvMap.lookup key) = (r.before c).kvDb.getValue key :=
      hvalues c key
    rw [hafter, Function.update_self]
    refine (KeyValueDataBase.getValue_restore _ key).trans ?_
    rw [hcopied, hvalues, hempty, Option.or_none]
  · intro a ha
    refine KeyValueDataBase.dataMap_ext fun key => ?_
    rw [hafter, Function.update_of_ne ha]
    exact hvalues a key

/-- When a restart among equal servers brings the data back. -/
theorem Origin.recovered_iff {r : Started} (h : r.Origin stubs) (hequal : r.AmongEqual stubs) :
    r.Recovered stubs ↔ r.FindsData stubs := by
  obtain ⟨c, hlisted, hsource, hcopied, hothers⟩ := h.source hequal.others
  have hiff : r.Recovered stubs ↔ ∀ a ∈ stubs.addrs, a ≠ r.server →
      (r.before c).kvDb.dataMap = (r.before a).kvDb.dataMap := by
    refine forall₃_congr fun a _ ha => ?_
    rw [hcopied, hothers a ha]
  rw [hiff]
  by_cases hc : c = r.server
  · -- a fresh server is nobody's coordinator, so it has won its own election
    have hknown : ¬ Known stubs r.before r.server := by
      intro hknown
      have := hknown.knows
      rw [h.fresh] at this
      exact this rfl
    subst hc
    rcases hsource with hknown' | ⟨hnone, hnominee⟩
    · exact absurd hknown' hknown
    · have hempty : (r.before r.server).kvDb.dataMap = ∅ := by
        rw [h.fresh]
        rfl
      rw [hempty, FindsData]
      constructor
      · exact fun hall => Or.inr (Or.inr fun a ha hne => (hall a ha hne).symm)
      · rintro (⟨c', hc'⟩ | hne | hall)
        · exact absurd hc' (hnone c')
        · exact absurd hnominee.symm hne
        · exact fun a ha hne => (hall a ha hne).symm
  · refine iff_of_true (fun a ha hne => hequal.equal c hlisted hc a ha hne) ?_
    rcases hsource with hknown | ⟨_, hnominee⟩
    · exact Or.inl ⟨c, hknown⟩
    · exact Or.inr (Or.inl fun heq => hc (hnominee.trans heq))

end Started

/-! ## All restarts of a run -/

/-- Every call to a running server is delivered. -/
def Delivered (d : Deployment) : Action → Prop
  | .start _ reach _ => ∀ a ∈ d.running, a ∈ reach
  | .request _ _ reach _ => ∀ a ∈ d.running, a ∈ reach
  | .crash _ => True

instance (d : Deployment) (act : Action) : Decidable (d.Delivered act) :=
  match act with
  | .start _ reach _ => inferInstanceAs (Decidable (∀ a ∈ d.running, a ∈ reach))
  | .request _ _ reach _ => inferInstanceAs (Decidable (∀ a ∈ d.running, a ∈ reach))
  | .crash _ => isTrue trivial

/-- Each server that started among equal servers had their data then. -/
def LosesNothing (stubs : PaxosStubs) (d : Deployment) : Prop :=
  ∀ r ∈ d.starts, r.AmongEqual stubs → r.Recovered stubs

instance (stubs : PaxosStubs) (d : Deployment) : Decidable (LosesNothing stubs d) :=
  inferInstanceAs (Decidable (∀ r ∈ d.starts, r.AmongEqual stubs → r.Recovered stubs))

theorem origin_of_reachable {d : Deployment}
    (h : (deployment stubs).Reachable Delivered d) : ∀ r ∈ d.starts, r.Origin stubs := by
  refine h.invariant (I := fun d => ∀ r ∈ d.starts, r.Origin stubs) ?_ ?_
  · rintro d rfl r hr
    cases hr
  · intro d act d' hreach hcond hstep hd
    have hsound := sound_of_reachable hreach
    cases step_cases hstep with
    | @started server reach randomFail status servers hdown hlisted hinit hok =>
      refine List.forall_mem_cons.mpr ⟨?_, hd⟩
      refine ⟨hlisted, hsound.servers, hsound.fresh server hdown, _, randomFail, status, ?_,
        hok, hinit⟩
      rintro a (rfl | ha)
      · simp
      · simp [reached, hcond a ha, ha]
    | ended hdown hlisted hinit => exact hd
    | answered hup hflow => exact hd
    | crashed hup => exact hd

/-- Restarts lose nothing if and only if each of them finds the data. -/
theorem losesNothing_iff {d : Deployment} (h : (deployment stubs).Reachable Delivered d) :
    LosesNothing stubs d ↔ ∀ r ∈ d.starts, r.AmongEqual stubs → r.FindsData stubs := by
  have hstarts := origin_of_reachable h
  constructor
  · intro hloses r hr hequal
    exact ((hstarts r hr).recovered_iff hequal).mp (hloses r hr hequal)
  · intro hfinds r hr hequal
    exact ((hstarts r hr).recovered_iff hequal).mpr (hfinds r hr hequal)

/-- Three servers start, a client writes, and `server` goes down and starts
again. -/
def putAndRestart (server : Addr) : List Action :=
  startServers ++
    [.request "b" (.put "k" "x") ["a", "b", "c"] fun _ _ => false, .crash server,
      .start server ["a", "b", "c"] fun _ _ => false]

set_option maxRecDepth 10000 in
/-- The coordinator `a` restarts.  The others name it, but it does not know a
coordinator itself, so it runs an election.  Its nomination from its first
start is still logged in round 1, and `a` copies its own empty database. -/
theorem not_losesNothing_restartedCoordinator :
    ∃ d, (deployment (.ofReplicas ["a", "b", "c"])).Reachable Delivered d ∧
      ¬ LosesNothing (.ofReplicas ["a", "b", "c"]) d := by
  have hrun : ∃ d ∈ (deployment (.ofReplicas ["a", "b", "c"])).execWhere Delivered
      (initial (.ofReplicas ["a", "b", "c"])) (putAndRestart "a"),
      ¬ LosesNothing (.ofReplicas ["a", "b", "c"]) d := by
    decide +kernel
  exact ActionSystem.exists_reachable_of_execWhere rfl hrun

set_option maxRecDepth 10000 in
/-- A restart of `b` among equal servers finds the data at `a`, and no start
of the run loses any. -/
theorem losesNothing_restartedFollower :
    ∃ d : Deployment, (d.servers "b").kvDb.getValue "k" = some "x" ∧
      (∃ r ∈ d.starts, r.server = "b" ∧ r.AmongEqual (.ofReplicas ["a", "b", "c"]) ∧
        (r.before "a").kvDb.getValue "k" = some "x" ∧
        r.FindsData (.ofReplicas ["a", "b", "c"])) ∧
      LosesNothing (.ofReplicas ["a", "b", "c"]) d := by
  have hrun : ∃ d ∈ (deployment (.ofReplicas ["a", "b", "c"])).execWhere Delivered
      (initial (.ofReplicas ["a", "b", "c"])) (putAndRestart "b"),
      (d.servers "b").kvDb.getValue "k" = some "x" ∧
      (∃ r ∈ d.starts, r.server = "b" ∧ r.AmongEqual (.ofReplicas ["a", "b", "c"]) ∧
        (r.before "a").kvDb.getValue "k" = some "x") ∧
      ∀ r ∈ d.starts, r.AmongEqual (.ofReplicas ["a", "b", "c"]) →
        r.FindsData (.ofReplicas ["a", "b", "c"]) := by
    decide +kernel
  obtain ⟨d, hreach, hvalue, ⟨r, hr, hserver, hequal, hbefore⟩, hfinds⟩ :=
    ActionSystem.exists_reachable_of_execWhere rfl hrun
  exact ⟨d, hvalue, ⟨r, hr, hserver, hequal, hbefore, hfinds r hr hequal⟩,
    (losesNothing_iff hreach).mpr hfinds⟩

end Deployment

end PaxosKVStore
