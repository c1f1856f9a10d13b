import PaxosKVStore.AtomicMap
import PaxosKVStore.Nominations
import PaxosKVStore.Reference

/-!
# A run of Paxos among servers that can be reached

Calls to the servers in `reach` are delivered, and the others fail.  Then the
reference of an invocation is simpler: the live set is `peers`, every one of
them logs the round, and only random failures refuse anything, because no
promise is on record.

An election always succeeds, with the nominee of the first peer that has
accepted one in its round.  An update whose round nobody has logged succeeds
with its own operation, or has no effect at all.
-/

namespace PaxosKVStore

namespace Reference

open MultiPaxosServiceImpl (Rejects)

/-- The replicas that can be reached, in the order of the map. -/
def peers (stubs : PaxosStubs) (reach : Addr → Bool) : List Addr :=
  stubs.addrs.filter fun a => reach a

/-- The nominee of the first of the candidates that has accepted one in the
round, or else the server itself. -/
def nomineeAmong (candidates : List Addr) (servers : Servers) (round : Int) (server : Addr) :
    Addr :=
  match candidates.find? fun a =>
      0 < ((servers a).kvDb.paxosLog "coordinator" round).acceptedId with
  | some a => ((servers a).kvDb.paxosLog "coordinator" round).acceptedValue
  | none => server

theorem mem_peers {stubs : PaxosStubs} {reach : Addr → Bool} {a : Addr} :
    a ∈ peers stubs reach ↔ a ∈ stubs.addrs ∧ reach a = true := by
  rw [peers, List.mem_filter]

variable {stubs : PaxosStubs} {servers : Servers} {server : Addr} {request : Request}
  {reach : Addr → Bool} {randomFail : Message → Addr → Bool} {a : Addr} {msg : Message}

theorem live_within (hsound : SoundServer stubs server (servers server)) :
    Solo.live (.within reach randomFail) servers server = peers stubs reach := by
  rw [Solo.live, PaxosStubsMap.getPaxosStubs, hsound.configured, peers]
  refine List.filter_congr fun a _ => ?_
  cases h : reach a <;> simp [Outcomes.within, h]

theorem delivered_within (ha : a ∈ peers stubs reach) :
    (Outcomes.within reach randomFail).fate msg a = .delivered :=
  if_pos (mem_peers.mp ha).2

theorem reached_within (hsound : SoundServer stubs server (servers server)) :
    Reached (.within reach randomFail) servers server msg a ↔ a ∈ peers stubs reach := by
  rw [Reached, live_within hsound]
  refine and_iff_left_of_imp fun ha => ?_
  rw [delivered_within ha]
  decide

/-- Every peer logs the round, and nobody else does. -/
theorem logs_within (hsound : SoundServer stubs server (servers server)) :
    Logs (.within reach randomFail) servers server request a ↔ a ∈ peers stubs reach := by
  simp only [Logs, reached_within hsound]
  tauto

/-- A peer promises unless it fails at random. -/
theorem promises_within (hsound : ∀ a, SoundServer stubs a (servers a))
    (ha : a ∈ peers stubs reach) :
    Promises (.within reach randomFail) servers server request a ↔
      ¬ Rejects request.key (randomFail (Solo.prepareMsg servers server request) a) := by
  rw [Promises, delivered_within ha, log, (hsound a).promised]
  simp [Outcomes.within]

/-- So does it accept. -/
theorem accepts_within (hsound : ∀ a, SoundServer stubs a (servers a)) :
    Accepts (.within reach randomFail) servers server request a ↔
      ¬ Rejects request.key
        (randomFail (proposeMsg (.within reach randomFail) servers server request) a) := by
  rw [Accepts, log, (hsound a).promised]
  simp [Outcomes.within]

/-- What a peer executes, and nobody else does. -/
theorem executed_within (hsound : SoundServer stubs server (servers server)) :
    executed (.within reach randomFail) servers server request a =
      if Consensus (.within reach randomFail) servers server request ∧ a ∈ peers stubs reach ∧
        ¬ (servers a).kvDb.Supersedes request.key (Solo.round servers server request)
      then some (proposal (.within reach randomFail) servers server request) else none := by
  unfold executed
  simp only [reached_within hsound, and_assoc]

/-- If no peer fails at random there is a consensus. -/
theorem consensus_of_reliable (hsound : ∀ a, SoundServer stubs a (servers a))
    (hself : server ∈ peers stubs reach)
    (hreliable : ∀ msg, ∀ a ∈ peers stubs reach, ¬ Rejects request.key (randomFail msg a)) :
    Solo.live (.within reach randomFail) servers server ≠ [] ∧
      Consensus (.within reach randomFail) servers server request := by
  have hlive : Solo.live (.within reach randomFail) servers server = peers stubs reach :=
    live_within (hsound server)
  have hvoters : voters (.within reach randomFail) servers server request =
      peers stubs reach := by
    rw [voters, hlive, List.filter_eq_self]
    intro a ha
    exact decide_eq_true ((promises_within hsound ha).mpr (hreliable _ a ha))
  have hacceptors : acceptors (.within reach randomFail) servers server request =
      peers stubs reach := by
    rw [acceptors, hlive, List.filter_eq_self]
    intro a ha
    exact decide_eq_true ⟨delivered_within ha, (accepts_within hsound).mpr (hreliable _ a ha)⟩
  have hpos := List.length_pos_of_mem hself
  rw [Consensus, Quorum, hvoters, hacceptors, hlive]
  exact ⟨List.ne_nil_of_mem hself, by omega, by omega⟩

/-! ## Elections -/

/-- What an election in `round` leaves of the servers. -/
structure Elected (peers : List Addr) (round : Int) (winner : Addr) (servers servers' : Servers) :
    Prop where
  value : ∀ a key, (servers' a).kvDb.getValue key = (servers a).kvDb.getValue key
  rounds : ∀ a key r, r ∈ (servers' a).kvDb.rounds key ↔
    (a ∈ peers ∧ key = "coordinator" ∧ r = round) ∨ r ∈ (servers a).kvDb.rounds key
  follows : ∀ a ∈ peers, ¬ (servers a).kvDb.Supersedes "coordinator" round →
    (servers' a).paxosStubsMap.coordinator = winner
  coordinator : ∀ a, (servers' a).paxosStubsMap.coordinator = winner ∨
    (servers' a).paxosStubsMap.coordinator = (servers a).paxosStubsMap.coordinator

section Election

/-- An election is never without a consensus. -/
theorem consensus_of_election (hsound : ∀ a, SoundServer stubs a (servers a))
    (hself : server ∈ peers stubs reach) (hkey : request.key = "coordinator") :
    Solo.live (.within reach randomFail) servers server ≠ [] ∧
      Consensus (.within reach randomFail) servers server request :=
  consensus_of_reliable hsound hself fun _ _ _ hrejects => hrejects.1 hkey

/-- It proposes the nominee among the peers. -/
theorem proposal_of_election (hsound : ∀ a, SoundServer stubs a (servers a)) :
    proposal (.within reach randomFail) servers server (.electCoordinator "coordinator" server) =
      { type := .setCoordinator
        value := nomineeAmong (peers stubs reach) servers
          (Solo.round servers server (.electCoordinator "coordinator" server)) server } := by
  set request := Request.electCoordinator "coordinator" server with hrequest
  have hids : ∀ a, (log servers server request a).acceptedId = 0 ∨
      (log servers server request a).acceptedId = 1 := fun a => (hsound a).accepted _ _
  have hvoters : voters (.within reach randomFail) servers server request =
      peers stubs reach := by
    rw [voters, live_within (hsound server), List.filter_eq_self]
    intro a ha
    exact decide_eq_true ((promises_within hsound ha).mpr fun hrejects => hrejects.1 rfl)
  have hadopted : adopted (.within reach randomFail) servers server request =
      (peers stubs reach).find? fun a => 0 < ((servers a).kvDb.paxosLog "coordinator"
        (Solo.round servers server request)).acceptedId := by
    rw [adopted, hvoters]
    refine List.find?_congr fun a _ => ?_
    rw [decide_eq_decide]
    refine ⟨fun h => h.1, fun h => ⟨h, fun b _ => ?_⟩⟩
    replace h : 0 < (log servers server request a).acceptedId := h
    rcases hids b with hb | hb <;> omega
  rw [proposal, hadopted, nomineeAmong]
  cases hfirst : (peers stubs reach).find? fun a => 0 < ((servers a).kvDb.paxosLog
      "coordinator" (Solo.round servers server request)).acceptedId with
  | none => rfl
  | some a =>
    have hpos := List.find?_some hfirst
    have hnominates := (hsound a).nominates _ (of_decide_eq_true hpos)
    simp only [log, hrequest, Request.key]
    exact Operation.mk.injEq .. ▸ ⟨hnominates.1, rfl⟩

/-- An election always succeeds. -/
theorem election_ok (hsound : ∀ a, SoundServer stubs a (servers a))
    (hself : server ∈ peers stubs reach) :
    (runPaxos (.within reach randomFail) servers server
      (.electCoordinator "coordinator" server)).1 = Status.OK := by
  have hok : (runPaxos (.within reach randomFail) servers server
      (.electCoordinator "coordinator" server)).1.ok = true :=
    ok_iff.mpr (consensus_of_election hsound hself rfl)
  rw [Solo.runPaxos_eq_of_ok hok]

/-- The nominee is on the list. -/
theorem nominee_mem (hsound : ∀ a, SoundServer stubs a (servers a))
    (hself : server ∈ stubs.addrs) (candidates : List Addr) (round : Int) :
    nomineeAmong candidates servers round server ∈ stubs.addrs := by
  unfold nomineeAmong
  split
  · rename_i a hfirst
    have hpos := List.find?_some hfirst
    exact ((hsound a).nominates _ (of_decide_eq_true hpos)).2
  · exact hself

/-- What an election leaves. -/
theorem elected_runPaxos (hsound : ∀ a, SoundServer stubs a (servers a))
    (hself : server ∈ peers stubs reach) (randomFail : Message → Addr → Bool) :
    Elected (peers stubs reach) ((servers server).kvDb.latestRound "coordinator" + 1)
      (nomineeAmong (peers stubs reach) servers
        ((servers server).kvDb.latestRound "coordinator" + 1) server) servers
      (runPaxos (.within reach randomFail) servers server
        (.electCoordinator "coordinator" server)).2 := by
  set request := Request.electCoordinator "coordinator" server with hrequest
  have hconsensus : Consensus (.within reach randomFail) servers server request :=
    (consensus_of_election hsound hself rfl).2
  have haffected := affected_runPaxos (.within reach randomFail) servers server request
  have hexecuted : ∀ a, executed (.within reach randomFail) servers server request a =
      if a ∈ peers stubs reach ∧
        ¬ (servers a).kvDb.Supersedes "coordinator" (Solo.round servers server request)
      then some (proposal (.within reach randomFail) servers server request) else none := by
    intro a
    rw [executed_within (hsound server)]
    exact if_congr (and_iff_right hconsensus) rfl rfl
  have hlisted := nominee_mem hsound (mem_peers.mp hself).1 (peers stubs reach)
    (Solo.round servers server request)
  refine ⟨fun a key => ?_, fun a key r => ?_, fun a ha hnot => ?_, fun a => ?_⟩
  · rw [(haffected a).value, hexecuted]
    split_ifs <;> simp [valueAfter, Operation.effect, proposal_of_election hsound, hrequest]
  · rw [(haffected a).rounds, logs_within (hsound server)]
    rfl
  · rw [(haffected a).coordinator, hexecuted, if_pos ⟨ha, hnot⟩, proposal_of_election hsound]
    refine if_pos ⟨rfl, ?_⟩
    rw [(hsound a).configured]
    exact hlisted
  · rw [(haffected a).coordinator, hexecuted]
    split_ifs
    · refine Or.inl ?_
      rw [proposal_of_election hsound]
      refine if_pos ⟨rfl, ?_⟩
      rw [(hsound a).configured]
      exact hlisted
    · exact Or.inr rfl

end Election

/-! ## Updates -/

/-- What an update in `round` leaves of the servers, if it is answered OK or
not. -/
structure Updated (peers : List Addr) (request : Request) (round : Int) (ok : Bool)
    (servers servers' : Servers) : Prop where
  value : ∀ a key, (servers' a).kvDb.getValue key =
    if ok = true ∧ a ∈ peers ∧ key = request.key then request.outcome
    else (servers a).kvDb.getValue key
  rounds : ∀ a key r, r ∈ (servers' a).kvDb.rounds key ↔
    (a ∈ peers ∧ key = request.key ∧ r = round) ∨ r ∈ (servers a).kvDb.rounds key
  coordinator : ∀ a, (servers' a).paxosStubsMap.coordinator =
    (servers a).paxosStubsMap.coordinator

section Update

/-- In a round that no peer has logged, an invocation proposes its own
operation. -/
theorem proposal_of_fresh (hsound : SoundServer stubs server (servers server))
    (hfresh : ∀ a ∈ peers stubs reach, ∀ r ∈ (servers a).kvDb.rounds request.key,
      r < Solo.round servers server request) :
    proposal (.within reach randomFail) servers server request = request.setProposeValue := by
  have hadopted : adopted (.within reach randomFail) servers server request = none := by
    refine List.find?_eq_none.mpr fun a ha hpos => ?_
    have hlive : Solo.live (.within reach randomFail) servers server = peers stubs reach :=
      live_within hsound
    have ha' : a ∈ peers stubs reach := hlive ▸ (List.mem_filter.mp ha).1
    have hlog : log servers server request a = {} :=
      KeyValueDataBase.paxosLog_of_notMem fun hmem => lt_irrefl _ (hfresh a ha' _ hmem)
    rw [hlog] at hpos
    exact absurd (of_decide_eq_true hpos).1 (by decide)
  rw [proposal, hadopted]

/-- What an update leaves whose round no peer has logged. -/
theorem updated_runPaxos (hsound : ∀ a, SoundServer stubs a (servers a))
    (hself : server ∈ peers stubs reach) (hupdate : request.IsUpdate)
    (hfresh : ∀ a ∈ peers stubs reach, ∀ r ∈ (servers a).kvDb.rounds request.key,
      r ≤ (servers server).kvDb.latestRound request.key)
    (randomFail : Message → Addr → Bool) :
    Updated (peers stubs reach) request ((servers server).kvDb.latestRound request.key + 1)
      (runPaxos (.within reach randomFail) servers server request).1.ok servers
      (runPaxos (.within reach randomFail) servers server request).2 := by
  have hlower : ∀ a ∈ peers stubs reach, ∀ r ∈ (servers a).kvDb.rounds request.key,
      r < Solo.round servers server request := fun a ha r hr =>
    Int.lt_add_one_of_le (hfresh a ha r hr)
  have hok : (runPaxos (.within reach randomFail) servers server request).1.ok = true ↔
      Consensus (.within reach randomFail) servers server request := by
    rw [ok_iff, live_within (hsound server)]
    exact and_iff_right (List.ne_nil_of_mem hself)
  have hexecuted : ∀ a, executed (.within reach randomFail) servers server request a =
      if (runPaxos (.within reach randomFail) servers server request).1.ok = true ∧
        a ∈ peers stubs reach then some request.setProposeValue else none := by
    intro a
    rw [executed_within (hsound server), proposal_of_fresh (hsound server) hlower]
    refine if_congr (and_congr hok.symm <| and_iff_left_of_imp fun ha => ?_) rfl rfl
    rintro ⟨r, hr, hlt⟩
    exact lt_asymm hlt (hlower a ha r hr)
  have haffected := affected_runPaxos (.within reach randomFail) servers server request
  refine ⟨fun a key => ?_, fun a key r => ?_, fun a => ?_⟩
  · rw [(haffected a).value, hexecuted]
    by_cases hkey : key = request.key
    · rw [if_pos hkey]
      by_cases hdone : (runPaxos (.within reach randomFail) servers server request).1.ok = true ∧
          a ∈ peers stubs reach
      · rw [if_pos hdone, if_pos ⟨hdone.1, hdone.2, hkey⟩]
        exact hupdate.effect _
      · rw [if_neg hdone, if_neg fun h => hdone ⟨h.1, h.2.1⟩]
        rfl
    · rw [if_neg hkey, if_neg fun h => hkey h.2.2]
  · rw [(haffected a).rounds, logs_within (hsound server)]
    rfl
  · rw [(haffected a).coordinator, hexecuted]
    split_ifs
    · refine if_neg fun hset => ?_
      cases request with
      | put key value => cases hset.1
      | delete key => cases hset.1
      | electCoordinator key coordinator => exact hupdate.elim
    · rfl

/-- An update succeeds if no peer fails at random. -/
theorem update_ok (hsound : ∀ a, SoundServer stubs a (servers a))
    (hself : server ∈ peers stubs reach)
    (hreliable : ∀ msg, ∀ a ∈ peers stubs reach, randomFail msg a = false) :
    (runPaxos (.within reach randomFail) servers server request).1.ok = true := by
  refine ok_iff.mpr (consensus_of_reliable hsound hself fun msg a ha hrejects => ?_)
  have hfails := hrejects.2
  rw [hreliable msg a ha] at hfails
  cases hfails

end Update

end Reference

end PaxosKVStore
