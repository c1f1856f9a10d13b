import PaxosKVStore.Nominations
import PaxosKVStore.Discovery

/-!
# What a start-up changes

A server that starts follows the coordinator that the others agree on, or
runs an election, and then copies the database of its coordinator.  Beside
itself it changes only what the election changes.  `initializeServer_ok` is
the whole account of a start-up that returned OK.
-/

namespace PaxosKVStore

variable {stubs : PaxosStubs} {servers servers' : Servers} {server : Addr} {e : StartUp}
  {status : Status}

theorem soundServer_update {s : MultiPaxosServiceImpl}
    (hsound : ∀ a, SoundServer stubs a (servers a)) (hs : SoundServer stubs server s) (a : Addr) :
    SoundServer stubs a (Function.update servers server s a) := by
  by_cases ha : a = server
  · subst ha
    rw [Function.update_self]
    exact hs
  · rw [Function.update_of_ne ha]
    exact hsound a

/-- A call to a server's own stub nominates a listed address. -/
theorem electNewCoordinator_cases (hsound : ∀ a, SoundServer stubs a (servers a))
    (h : servers.electNewCoordinator e server = some (status, servers')) :
    server ∈ stubs.addrs ∧
      (servers' = servers ∨ servers' = (runPaxos e.outcomes servers server
        (.electCoordinator "coordinator" server)).2) ∧
      (e.election server = .delivered →
        (status, servers') = runPaxos e.outcomes servers server
          (.electCoordinator "coordinator" server)) := by
  unfold Servers.electNewCoordinator at h
  simp only [(hsound server).address, PaxosStubsMap.getStub, (hsound server).configured] at h
  split at h
  · cases h
  · rename_i stub hstub
    split at hstub
    · cases hstub
    · rename_i hlisted
      cases hstub
      rw [not_or, not_not] at hlisted
      refine ⟨hlisted.2, ?_⟩
      cases hfate : e.election server with
      | delivered =>
        simp only [hfate, Option.some.injEq] at h
        exact ⟨Or.inr (congrArg Prod.snd h).symm, fun _ => h.symm⟩
      | lost =>
        simp only [hfate, Option.some.injEq, Prod.mk.injEq] at h
        exact ⟨Or.inl h.2.symm, by simp⟩
      | replyLost =>
        simp only [hfate, Option.some.injEq, Prod.mk.injEq] at h
        exact ⟨Or.inr h.2.symm, by simp⟩

theorem soundServer_electNewCoordinator (hsound : ∀ a, SoundServer stubs a (servers a))
    (h : servers.electNewCoordinator e server = some (status, servers')) (a : Addr) :
    SoundServer stubs a (servers' a) := by
  obtain ⟨hlisted, rfl | rfl, _⟩ := electNewCoordinator_cases hsound h
  · exact hsound a
  · have hnominates : Nominates stubs
        (Request.electCoordinator "coordinator" server).setProposeValue := ⟨rfl, hlisted⟩
    exact Solo.soundServer_runPaxos hsound (fun _ => hnominates) a

/-- A successful election leaves the server with a listed coordinator. -/
theorem coordinator_of_electNewCoordinator {reach : Addr → Bool}
    {randomFail : Message → Addr → Bool} (hsound : ∀ a, SoundServer stubs a (servers a))
    (hreach : reach server = true)
    (h : servers.electNewCoordinator (.within reach randomFail) server = some (status, servers'))
    (hok : status.ok = true) : (servers' server).paxosStubsMap.coordinator ∈ stubs.addrs := by
  obtain ⟨hlisted, _, hrun⟩ := electNewCoordinator_cases hsound h
  have hnominates : Nominates stubs
      (Request.electCoordinator "coordinator" server).setProposeValue := ⟨rfl, hlisted⟩
  have heq : (status, servers') = runPaxos (.within reach randomFail) servers server
    (.electCoordinator "coordinator" server) := hrun (if_pos hreach)
  have hcoordinator := @Solo.coordinator_of_election stubs servers server _ reach randomFail
    hsound hlisted hreach rfl hnominates (by rw [← heq]; exact hok)
  rw [← heq] at hcoordinator
  exact hcoordinator ▸ (Solo.nominates_proposal hsound rfl hnominates).2

theorem soundServer_follow (hsound : ∀ a, SoundServer stubs a (servers a)) (c a : Addr) :
    SoundServer stubs a (servers.follow server c a) := by
  have hs := hsound server
  refine @soundServer_update _ _ server _ hsound ?_ a
  refine ⟨hs.address, ?_, hs.promised, hs.accepted, hs.nominates, ?_⟩
  · exact (PaxosStubsMap.stubs_setCoordinator _ _).trans hs.configured
  · rw [PaxosStubsMap.coordinator_setCoordinator]
    split
    · rename_i hlisted
      exact Or.inr (hs.configured ▸ hlisted)
    · exact hs.coordinator

/-- The server copies the database of its coordinator, or nothing. -/
theorem getRecovery_cases
    (h : servers.getRecovery e server = some (status, servers')) :
    ∃ coordinator ∈ (servers server).paxosStubsMap.stubs.addrs,
      (servers server).paxosStubsMap.coordinator = coordinator ∧
      ((status = Status.OK ∧ servers' = Function.update servers server
          { servers server with
            kvDb := (servers server).kvDb.restore (servers coordinator).recover }) ∨
        (status.ok = false ∧ servers' = servers)) := by
  unfold Servers.getRecovery at h
  simp only [PaxosStubsMap.getCoordinatorStub] at h
  split at h
  · cases h
  · rename_i coordinator hstub
    split at hstub
    · rename_i hlisted
      cases hstub
      refine ⟨_, hlisted, rfl, ?_⟩
      split at h
      · cases h
        exact Or.inl ⟨rfl, rfl⟩
      · cases h
        exact Or.inr ⟨rfl, rfl⟩
    · cases hstub

theorem soundServer_getRecovery (hsound : ∀ a, SoundServer stubs a (servers a))
    (h : servers.getRecovery e server = some (status, servers')) (a : Addr) :
    SoundServer stubs a (servers' a) := by
  obtain ⟨c, _, _, ⟨_, rfl⟩ | ⟨_, rfl⟩⟩ := getRecovery_cases h
  · have hs := hsound server
    have hlogs := KeyValueDataBase.logsFrom_restore (servers server).kvDb (servers c)
    apply soundServer_update hsound
    refine ⟨hs.address, hs.configured, ?_, ?_, ?_, hs.coordinator⟩
    · intro key r
      rcases hlogs.log key r with heq | heq <;> rw [heq]
      · exact hs.promised key r
      · exact (hsound c).promised key r
    · intro key r
      rcases hlogs.log key r with heq | heq <;> rw [heq]
      · exact hs.accepted key r
      · exact (hsound c).accepted key r
    · intro r
      rcases hlogs.log "coordinator" r with heq | heq <;> rw [heq]
      · exact hs.nominates r
      · exact (hsound c).nominates r
  · exact hsound a

/-- The start-up goes through the discovery or else an election, and then
through the recovery. -/
theorem initializeServer_cases
    (h : servers.initializeServer e server = some (status, servers')) :
    ∃ (elected : Status) (chosen : Servers),
      ((∃ c, Agreed e servers server c ∧ chosen = servers.follow server c) ∨
        ((∀ c, ¬ Agreed e servers server c) ∧
          servers.electNewCoordinator e server = some (elected, chosen))) ∧
      ((elected.ok = false ∧ status.ok = false ∧ servers' = chosen) ∨
        (elected.ok = true ∧ ∃ recovered, chosen.getRecovery e server =
          some (recovered, servers') ∧ status.ok = recovered.ok)) := by
  rcases hget : servers.getCoordinator e server with ⟨getStatus, found⟩
  simp only [Servers.initializeServer, hget] at h
  split at h
  · cases h
  · rename_i elected chosen hchosen
    refine ⟨elected, chosen, ?_, ?_⟩
    · rcases getCoordinator_cases e servers server with
        ⟨c, hagreed, heq⟩ | ⟨hnone, message, heq⟩
      · rw [hget] at heq
        cases heq
        cases hchosen
        exact Or.inl ⟨c, hagreed, rfl⟩
      · rw [hget] at heq
        cases heq
        exact Or.inr ⟨hnone, hchosen⟩
    · cases helected : elected.ok with
      | false =>
        rw [helected, if_neg Bool.false_ne_true] at h
        cases h
        exact Or.inl ⟨rfl, rfl, rfl⟩
      | true =>
        rw [helected, if_pos rfl] at h
        split at h
        · cases h
        · rename_i recovered servers'' hrecovered
          refine Or.inr ⟨rfl, recovered, ?_⟩
          cases hrecoveredOk : recovered.ok with
          | true =>
            rw [hrecoveredOk, if_pos rfl] at h
            cases h
            exact ⟨hrecovered, rfl⟩
          | false =>
            rw [hrecoveredOk, if_neg Bool.false_ne_true] at h
            cases h
            exact ⟨hrecovered, rfl⟩

theorem soundServer_initializeServer (hsound : ∀ a, SoundServer stubs a (servers a))
    (h : servers.initializeServer e server = some (status, servers')) (a : Addr) :
    SoundServer stubs a (servers' a) := by
  obtain ⟨elected, chosen, hchosen, hend⟩ := initializeServer_cases h
  have hsound' : ∀ a, SoundServer stubs a (chosen a) := by
    rcases hchosen with ⟨c, _, rfl⟩ | ⟨_, helection⟩
    · exact soundServer_follow hsound c
    · exact soundServer_electNewCoordinator hsound helection
  rcases hend with ⟨_, _, rfl⟩ | ⟨_, recovered, hrecovered, _⟩
  · exact hsound' a
  · exact soundServer_getRecovery hsound' hrecovered a

/-- Beside itself, a server that starts changes what its election changes. -/
theorem initializeServer_others (hsound : ∀ a, SoundServer stubs a (servers a))
    (h : servers.initializeServer e server = some (status, servers')) :
    (∀ a, a ≠ server → servers' a = servers a) ∨
      ∀ a, a ≠ server → servers' a =
        (runPaxos e.outcomes servers server (.electCoordinator "coordinator" server)).2 a := by
  obtain ⟨elected, chosen, hchosen, hend⟩ := initializeServer_cases h
  have hrecovered : ∀ a, a ≠ server → servers' a = chosen a := by
    intro a ha
    rcases hend with ⟨_, _, rfl⟩ | ⟨_, recovered, hrecovery, _⟩
    · rfl
    · obtain ⟨c, _, _, ⟨_, rfl⟩ | ⟨_, rfl⟩⟩ := getRecovery_cases hrecovery
      · exact Function.update_of_ne ha ..
      · rfl
  rcases hchosen with ⟨c, _, rfl⟩ | ⟨_, helection⟩
  · exact Or.inl fun a ha => (hrecovered a ha).trans (Function.update_of_ne ha ..)
  · obtain ⟨_, rfl | rfl, _⟩ := electNewCoordinator_cases hsound helection
    · exact Or.inl hrecovered
    · exact Or.inr hrecovered

/-- A server that has started has copied the database of its coordinator, on
which the others agreed or which its own election left it with. -/
theorem initializeServer_ok (hsound : ∀ a, SoundServer stubs a (servers a))
    (hself : e.election server = .delivered)
    (h : servers.initializeServer e server = some (status, servers'))
    (hok : status.ok = true) :
    ∃ (chosen : Servers) (c : Addr),
      ((Agreed e servers server c ∧ chosen = servers.follow server c) ∨
        ((∀ c, ¬ Agreed e servers server c) ∧
          runPaxos e.outcomes servers server (.electCoordinator "coordinator" server) =
            (Status.OK, chosen))) ∧
      (chosen server).paxosStubsMap.coordinator = c ∧ c ∈ stubs.addrs ∧
      servers' = Function.update chosen server
        { chosen server with kvDb := (chosen server).kvDb.restore (chosen c).recover } := by
  obtain ⟨elected, chosen, hchosen, hend⟩ := initializeServer_cases h
  rcases hend with ⟨_, hfailed, _⟩ | ⟨helected, recovered, hrecovery, hrecovered⟩
  · rw [hok] at hfailed
    cases hfailed
  · obtain ⟨c, hlisted, hc, ⟨_, rfl⟩ | ⟨hfailed, _⟩⟩ := getRecovery_cases hrecovery
    · rcases hchosen with ⟨c', hagreed, rfl⟩ | ⟨hnone, helection⟩
      · have hmem : c' ∈ (servers server).paxosStubsMap.stubs.addrs := hagreed.mem
        have hc' := coordinator_follow hagreed
        rw [hc'] at hc
        subst hc
        rw [(hsound server).configured] at hmem
        exact ⟨_, c', Or.inl ⟨hagreed, rfl⟩, hc', hmem, rfl⟩
      · have hs := soundServer_electNewCoordinator hsound helection server
        rw [hs.configured] at hlisted
        obtain ⟨_, _, hrun⟩ := electNewCoordinator_cases hsound helection
        have heq := hrun hself
        have hrunOk := Solo.runPaxos_eq_of_ok (by rw [← heq]; exact helected)
        refine ⟨chosen, c, Or.inr ⟨hnone, ?_⟩, hc, hlisted, rfl⟩
        rw [hrunOk] at heq ⊢
        rw [(Prod.mk.inj heq).2]
    · rw [← hrecovered, hok] at hfailed
      cases hfailed

/-! ## No call goes through a null stub -/

/-- A server that is on its own list has a stub to itself. -/
theorem electNewCoordinator_isSome (hsound : ∀ a, SoundServer stubs a (servers a))
    (hlisted : server ∈ stubs.addrs) (hne : server ≠ "") (e : StartUp) :
    (servers.electNewCoordinator e server).isSome = true := by
  have hstub : (servers server).paxosStubsMap.getStub (servers server).myPaxosAddress =
      some server := by
    rw [PaxosStubsMap.getStub, (hsound server).address, (hsound server).configured]
    exact if_neg (by simp [hlisted, hne])
  rw [Servers.electNewCoordinator]
  simp only [hstub]
  split <;> rfl

/-- A server that knows a listed coordinator has a stub to it. -/
theorem getRecovery_isSome (hsound : SoundServer stubs server (servers server))
    (hcoordinator : (servers server).paxosStubsMap.coordinator ∈ stubs.addrs) (e : StartUp) :
    (servers.getRecovery e server).isSome = true := by
  have hstub : (servers server).paxosStubsMap.getCoordinatorStub =
      some (servers server).paxosStubsMap.coordinator := by
    rw [PaxosStubsMap.getCoordinatorStub, hsound.configured]
    exact if_pos hcoordinator
  rw [Servers.getRecovery]
  simp only [hstub]
  split <;> rfl

/-- A server that starts and can call itself finds a stub for each call. -/
theorem initializeServer_isSome (hsound : ∀ a, SoundServer stubs a (servers a))
    (hlisted : server ∈ stubs.addrs) (hne : server ≠ "") {reach : Addr → Bool}
    (hreach : reach server = true) (randomFail : Message → Addr → Bool) :
    (servers.initializeServer (.within reach randomFail) server).isSome = true := by
  rcases hget : servers.getCoordinator (.within reach randomFail) server with ⟨getStatus, found⟩
  -- the coordinator is a listed one when the recovery starts
  have hchosen : ∃ electStatus chosen,
      (if getStatus.ok then some (Status.OK, found)
        else found.electNewCoordinator (.within reach randomFail) server) =
          some (electStatus, chosen) ∧
      (electStatus.ok = true → SoundServer stubs server (chosen server) ∧
        (chosen server).paxosStubsMap.coordinator ∈ stubs.addrs) := by
    rcases getCoordinator_cases (.within reach randomFail) servers server with
      ⟨c, hagreed, heq⟩ | ⟨_, message, heq⟩
    · rw [hget] at heq
      cases heq
      refine ⟨_, _, rfl, fun _ => ⟨soundServer_follow hsound c server, ?_⟩⟩
      rw [coordinator_follow hagreed]
      exact (hsound server).configured ▸ hagreed.mem
    · rw [hget] at heq
      cases heq
      obtain ⟨⟨electStatus, chosen⟩, helection⟩ := Option.isSome_iff_exists.mp
        (electNewCoordinator_isSome hsound hlisted hne (.within reach randomFail))
      refine ⟨electStatus, chosen, helection, fun hok => ?_⟩
      refine ⟨soundServer_electNewCoordinator hsound helection server, ?_⟩
      exact coordinator_of_electNewCoordinator hsound hreach helection hok
  obtain ⟨electStatus, chosen, helected, hrecovers⟩ := hchosen
  simp only [Servers.initializeServer, hget, helected]
  split
  · rename_i hok
    obtain ⟨hs, hcoordinator⟩ := hrecovers hok
    obtain ⟨⟨recoverStatus, servers'⟩, hrecovery⟩ :=
      Option.isSome_iff_exists.mp (getRecovery_isSome hs hcoordinator (.within reach randomFail))
    simp only [hrecovery]
    split <;> rfl
  · rfl

end PaxosKVStore
