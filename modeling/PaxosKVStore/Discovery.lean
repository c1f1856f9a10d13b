import PaxosKVStore.Recovery

/-!
# Whom a discovery adopts

A server that starts asks all replicas, itself among them, for the
coordinator.  It adopts a name only if every answer gives this name and the
named replica is among those that answered.  A replica without a coordinator
answers NOT_FOUND, so it does not count as one that answered, and the adopted
coordinator knows itself as the coordinator.
-/

namespace PaxosKVStore

variable {e : StartUp} {servers : Servers} {server coordinator : Addr}

/-- What all who answer agree on is a coordinator in its own view. -/
theorem Agreed.self_aware (h : Agreed e servers server coordinator) :
    (servers coordinator).paxosStubsMap.coordinator = coordinator :=
  h.names coordinator h.mem h.answers

/-- They agree on one. -/
theorem Agreed.unique {coordinator' : Addr} (h : Agreed e servers server coordinator)
    (h' : Agreed e servers server coordinator') : coordinator = coordinator' :=
  (h.names coordinator' h'.mem h'.answers).symm.trans h'.self_aware

/-- The server that follows it has it as coordinator. -/
theorem coordinator_follow (h : Agreed e servers server coordinator) :
    (servers.follow server coordinator server).paxosStubsMap.coordinator = coordinator := by
  unfold Servers.follow
  rw [Function.update_self]
  exact (PaxosStubsMap.coordinator_setCoordinator _ _).trans (if_pos h.mem)

/-- The discovery returns OK with a coordinator exactly if all replicas that
answered OK name it and it is one of them, and then it names itself.  In every
other case it returns ABORTED and changes nothing.  A replica that has no
coordinator is never adopted. -/
theorem getCoordinator_exact (e : StartUp) (servers : Servers) (server : Addr) :
    (∀ c, (servers.getCoordinator e server).1.ok = true ∧
        ((servers.getCoordinator e server).2 server).paxosStubsMap.coordinator = c ↔
      Agreed e servers server c) ∧
    (∀ c, Agreed e servers server c →
      servers.getCoordinator e server = (Status.OK, servers.follow server c) ∧
        (servers c).paxosStubsMap.coordinator = c) ∧
    ((∀ c, ¬ Agreed e servers server c) →
      (servers.getCoordinator e server).1.code = .aborted ∧
        (servers.getCoordinator e server).2 = servers) ∧
    ∀ c, (servers c).paxosStubsMap.coordinator = "" →
      ¬ ((servers.getCoordinator e server).1.ok = true ∧
        ((servers.getCoordinator e server).2 server).paxosStubsMap.coordinator = c) := by
  have hexact : ∀ c, (servers.getCoordinator e server).1.ok = true ∧
      ((servers.getCoordinator e server).2 server).paxosStubsMap.coordinator = c ↔
        Agreed e servers server c := by
    intro c
    rcases getCoordinator_cases e servers server with
      ⟨coordinator, hagreed, hresult⟩ | ⟨hnone, message, hresult⟩
    · rw [hresult]
      show Status.OK.ok = true ∧
        (servers.follow server coordinator server).paxosStubsMap.coordinator = c ↔ _
      rw [coordinator_follow hagreed]
      constructor
      · rintro ⟨_, rfl⟩
        exact hagreed
      · intro hagreed'
        exact ⟨rfl, hagreed.unique hagreed'⟩
    · rw [hresult]
      constructor
      · intro h
        cases h.1
      · intro hagreed
        exact absurd hagreed (hnone c)
  refine ⟨hexact, fun c hagreed => ⟨?_, hagreed.self_aware⟩, fun hnone => ?_,
    fun c hempty hadopted => ?_⟩
  · rcases getCoordinator_cases e servers server with
      ⟨coordinator, hagreed', hresult⟩ | ⟨hnone, _⟩
    · rw [hresult, hagreed'.unique hagreed]
    · exact absurd hagreed (hnone c)
  · rcases getCoordinator_cases e servers server with
      ⟨coordinator, hagreed, _⟩ | ⟨_, message, hresult⟩
    · exact absurd hagreed (hnone coordinator)
    · rw [hresult]
      exact ⟨rfl, rfl⟩
  · exact ((hexact c).mp hadopted).answers.2 hempty

end PaxosKVStore
