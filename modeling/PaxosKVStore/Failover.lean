import PaxosKVStore.Deployment
import PaxosKVStore.Within

/-!
# What becomes of a request and of a start

A server that is up knows a listed coordinator, whatever went wrong before.
If that coordinator can be reached it handles the request, and nobody else
does anything.  Otherwise there is one election, which never fails, and its
winner handles the request if it can be reached.

The winner need not be reachable: it is the nominee of the first peer that
has accepted one in the round of the election.  Then the answer is
UNAVAILABLE, no data has changed, and the next request starts over with a
higher round.

A server that starts comes to follow a coordinator in the same two ways, and
the start succeeds exactly if that coordinator can be reached.
-/

namespace PaxosKVStore

open Reference (peers nomineeAmong Elected)

/-! ## The two ways of the request flow -/

section Flow

variable {stubs : PaxosStubs} {servers servers' : Servers} {server a c : Addr}
  {reach : Addr → Bool} {randomFail : Message → Addr → Bool} {request : ClientRequest}

/-- The coordinator that a server knows, if it is listed. -/
theorem coordinatorStub_of_listed (hsound : SoundServer stubs a (servers a))
    (hlisted : (servers a).paxosStubsMap.coordinator ∈ stubs.addrs) :
    (servers a).paxosStubsMap.getCoordinatorStub =
      some (servers a).paxosStubsMap.coordinator := by
  rw [PaxosStubsMap.getCoordinatorStub, hsound.configured]
  exact if_pos hlisted

/-- A coordinator that can be reached handles the request. -/
theorem requestFlow_of_reached
    (hstub : (servers server).paxosStubsMap.getCoordinatorStub = some c) (hreach : reach c = true) :
    servers.requestFlow reach randomFail server request =
      some (servers.handleRequest (.within reach randomFail) c request) := by
  have hforward : servers.forwardToCoordinator reach randomFail c request =
      servers.handleRequest (.within reach randomFail) c request := if_pos hreach
  have hcode := handleRequest_code servers (.within reach randomFail) c request
  simp only [Servers.requestFlow, hstub, hforward, if_neg hcode]

/-- The call of a server to itself that makes it run an election. -/
theorem electNewCoordinator_within (hsound : SoundServer stubs server (servers server))
    (hne : server ≠ "") (hself : server ∈ peers stubs reach) :
    servers.electNewCoordinator (.within reach randomFail) server =
      some (runPaxos (.within reach randomFail) servers server
        (.electCoordinator "coordinator" server)) := by
  obtain ⟨hlisted, hreach⟩ := Reference.mem_peers.mp hself
  have hstub : (servers server).paxosStubsMap.getStub server = some server := by
    rw [PaxosStubsMap.getStub, hsound.configured]
    exact if_neg (by simp [hlisted, hne])
  have hdelivered : (StartUp.within reach randomFail).election server = .delivered :=
    if_pos hreach
  simp only [Servers.electNewCoordinator, hsound.address, hstub, hdelivered]
  rfl

/-- The round in which `server` nominates itself. -/
def electionRound (servers : Servers) (server : Addr) : Int :=
  (servers server).kvDb.latestRound "coordinator" + 1

/-- The winner of an election that `server` runs among those in `reach`. -/
def winner (stubs : PaxosStubs) (servers : Servers) (reach : Addr → Bool) (server : Addr) : Addr :=
  nomineeAmong (peers stubs reach) servers (electionRound servers server) server

/-- The server that runs an election follows its winner. -/
theorem coordinator_of_elected
    (h : Elected (peers stubs reach) (electionRound servers server) c servers servers')
    (hself : server ∈ peers stubs reach) : (servers' server).paxosStubsMap.coordinator = c := by
  refine h.follows server hself ?_
  rintro ⟨r, hr, hlt⟩
  have hle := KeyValueDataBase.le_latestRound hr
  rw [electionRound] at hlt
  omega

/-- The request was handled by the winner of an election, or the winner could
not be reached. -/
def HandledByWinner (stubs : PaxosStubs) (servers servers' : Servers) (reach : Addr → Bool)
    (randomFail : Message → Addr → Bool) (server : Addr) (request : ClientRequest)
    (answer : Answer) : Prop :=
  ∃ chosen, (∀ a, SoundServer stubs a (chosen a)) ∧
    Elected (peers stubs reach) (electionRound servers server)
      (winner stubs servers reach server) servers chosen ∧
    if reach (winner stubs servers reach server) then
      HandledAt chosen servers' reach randomFail request answer
        (winner stubs servers reach server)
    else answer.handledBy = none ∧ answer.status.code = .unavailable ∧ servers' = chosen

/-- A request whose coordinator cannot be reached is forwarded to the one that is
elected. -/
theorem requestFlow_of_election {chosen : Servers} {elected : Addr} {forwarded : Answer}
    (hstub : (servers server).paxosStubsMap.getCoordinatorStub = some c)
    (hreach : reach c = false)
    (helection : servers.electNewCoordinator (.within reach randomFail) server =
      some (Status.OK, chosen))
    (hstub' : (chosen server).paxosStubsMap.getCoordinatorStub = some elected)
    (hforward : chosen.forwardToCoordinator reach randomFail elected request =
      (forwarded, servers')) :
    servers.requestFlow reach randomFail server request =
      if forwarded.status.ok then some (forwarded, servers')
      else some ({ forwarded with
        status :=
          { code := forwarded.status.code
            message := "Failed to communicate with Coordinator. " ++
              forwarded.status.message } }, servers') := by
  have hlost : servers.forwardToCoordinator reach randomFail c request =
      ({ status := unavailable }, servers) := if_neg (by simp [hreach])
  simp only [Servers.requestFlow, hstub, hlost, helection]
  rw [if_pos (by exact Or.inl rfl), if_pos (by rfl), hstub']
  simp only [hforward]

/-- A request whose coordinator cannot be reached. -/
theorem requestFlow_of_unreached (hsound : ∀ a, SoundServer stubs a (servers a))
    (hne : server ≠ "") (hself : server ∈ peers stubs reach)
    (hstub : (servers server).paxosStubsMap.getCoordinatorStub = some c)
    (hreach : reach c = false) :
    ∃ answer servers', servers.requestFlow reach randomFail server request =
        some (answer, servers') ∧
      HandledByWinner stubs servers servers' reach randomFail server request answer := by
  have helected := Reference.elected_runPaxos hsound hself randomFail
  have helection := @electNewCoordinator_within stubs servers server reach randomFail
    (hsound server) hne hself
  have hok := @Reference.election_ok stubs servers server reach randomFail hsound hself
  rcases hrun : runPaxos (.within reach randomFail) servers server
    (.electCoordinator "coordinator" server) with ⟨status, chosen⟩
  rw [hrun] at helected helection hok
  obtain rfl : status = Status.OK := hok
  have hsound' := soundServer_electNewCoordinator hsound helection
  have hcoordinator : (chosen server).paxosStubsMap.coordinator =
      winner stubs servers reach server := coordinator_of_elected helected hself
  have hstub' : (chosen server).paxosStubsMap.getCoordinatorStub =
      some (winner stubs servers reach server) := by
    have hlisted := Reference.nominee_mem hsound (Reference.mem_peers.mp hself).1
      (peers stubs reach) (electionRound servers server)
    rw [← hcoordinator]
    exact @coordinatorStub_of_listed stubs chosen server (hsound' server)
      (hcoordinator ▸ hlisted)
  cases hreach' : reach (winner stubs servers reach server) with
  | false =>
    have hlost' : chosen.forwardToCoordinator reach randomFail
        (winner stubs servers reach server) request = ({ status := unavailable }, chosen) :=
      if_neg (by simp [hreach'])
    rw [requestFlow_of_election hstub hreach helection hstub' hlost']
    refine ⟨_, _, rfl, chosen, hsound', helected, ?_⟩
    rw [if_neg (by simp [hreach'])]
    exact ⟨rfl, rfl, rfl⟩
  | true =>
    rcases hforward : chosen.forwardToCoordinator reach randomFail
      (winner stubs servers reach server) request with ⟨forwarded, servers'⟩
    rw [requestFlow_of_election hstub hreach helection hstub' hforward]
    rcases forwardToCoordinator_cases hforward with ⟨hhandled, _⟩ | ⟨hunavailable, _⟩
    · obtain ⟨_, handled, heq, hby, hresponse, hcode⟩ := hhandled
      by_cases hforwarded : forwarded.status.ok = true
      · refine ⟨forwarded, servers', if_pos hforwarded, chosen, hsound', helected, ?_⟩
        rw [if_pos hreach']
        exact ⟨hreach', handled, heq, hby, hresponse, hcode⟩
      · refine ⟨_, servers', if_neg hforwarded, chosen, hsound', helected, ?_⟩
        rw [if_pos hreach']
        exact ⟨hreach', handled, heq, hby, hresponse, hcode⟩
    · -- a forward that is reached does not answer UNAVAILABLE
      have hreached : chosen.forwardToCoordinator reach randomFail
          (winner stubs servers reach server) request =
          chosen.handleRequest (.within reach randomFail)
            (winner stubs servers reach server) request := if_pos hreach'
      have hcode := handleRequest_code chosen (.within reach randomFail)
        (winner stubs servers reach server) request
      rw [← hreached, hforward, hunavailable] at hcode
      exact absurd (Or.inl rfl) hcode

end Flow

/-! ## The start of a server -/

section Start

variable {stubs : PaxosStubs} {servers servers' : Servers} {server c : Addr}
  {reach : Addr → Bool} {randomFail : Message → Addr → Bool} {status : Status}

/-- `server` has come to follow `c`, and has left the servers as `chosen`. -/
inductive Chooses (stubs : PaxosStubs) (servers : Servers) (reach : Addr → Bool)
    (randomFail : Message → Addr → Bool) (server : Addr) : Addr → Servers → Prop where
  | found {c : Addr} (hagreed : Agreed (.within reach randomFail) servers server c) :
      Chooses stubs servers reach randomFail server c (servers.follow server c)
  | elected {chosen : Servers} (hnone : ∀ c, ¬ Agreed (.within reach randomFail) servers server c)
      (helected : Elected (peers stubs reach) (electionRound servers server)
        (winner stubs servers reach server) servers chosen) :
      Chooses stubs servers reach randomFail server (winner stubs servers reach server) chosen

/-- The server with the database of `c` written into its own. -/
def Servers.recoveredFrom (servers : Servers) (server c : Addr) : Servers :=
  Function.update servers server
    { servers server with kvDb := (servers server).kvDb.restore (servers c).recover }

theorem Servers.recoveredFrom_of_ne {a : Addr} (h : a ≠ server) :
    servers.recoveredFrom server c a = servers a :=
  Function.update_of_ne h ..

theorem Servers.kvDb_recoveredFrom : (servers.recoveredFrom server c server).kvDb =
    (servers server).kvDb.restore (servers c).recover := by
  rw [Servers.recoveredFrom, Function.update_self]

theorem Servers.coordinator_recoveredFrom :
    (servers.recoveredFrom server c server).paxosStubsMap.coordinator =
      (servers server).paxosStubsMap.coordinator := by
  rw [Servers.recoveredFrom, Function.update_self]

/-- Only a replica that can be reached answers a discovery. -/
theorem reach_of_answers {a : Addr} (h : Answers (.within reach randomFail) servers a) :
    reach a = true := by
  by_contra hnot
  have hlost : (StartUp.within reach randomFail).discovery a = .lost := if_neg hnot
  rw [h.1] at hlost
  cases hlost

/-- The recovery needs the coordinator, and nothing else. -/
theorem getRecovery_within (hstub : (servers server).paxosStubsMap.getCoordinatorStub = some c) :
    ∃ recovered : Status, servers.getRecovery (.within reach randomFail) server =
        some (recovered, if reach c then servers.recoveredFrom server c else servers) ∧
      recovered.ok = reach c := by
  rw [Servers.getRecovery]
  simp only [hstub]
  cases hreach : reach c with
  | true =>
    have hdelivered : (StartUp.within reach randomFail).recovery c = .delivered := if_pos hreach
    rw [hdelivered]
    exact ⟨_, rfl, rfl⟩
  | false =>
    have hlost : (StartUp.within reach randomFail).recovery c = .lost :=
      if_neg (by simp [hreach])
    rw [hlost]
    exact ⟨_, rfl, rfl⟩

/-- A start comes to follow a listed server and copies its database.  It
fails exactly if that server cannot be reached. -/
theorem initializeServer_within (hsound : ∀ a, SoundServer stubs a (servers a))
    (hne : server ≠ "") (hself : server ∈ peers stubs reach)
    (h : servers.initializeServer (.within reach randomFail) server = some (status, servers')) :
    ∃ c chosen, Chooses stubs servers reach randomFail server c chosen ∧
      (chosen server).paxosStubsMap.coordinator = c ∧ c ∈ stubs.addrs ∧ status.ok = reach c ∧
      servers' = if reach c then chosen.recoveredFrom server c else chosen := by
  obtain ⟨c, chosen, elected, hchooses, hsound', hcoordinator, hlisted, hok, hfirst⟩ :
      ∃ c chosen, ∃ elected : Status, Chooses stubs servers reach randomFail server c chosen ∧
        SoundServer stubs server (chosen server) ∧
        (chosen server).paxosStubsMap.coordinator = c ∧ c ∈ stubs.addrs ∧ elected.ok = true ∧
        (if (servers.getCoordinator (.within reach randomFail) server).1.ok then
            some (Status.OK, (servers.getCoordinator (.within reach randomFail) server).2)
          else (servers.getCoordinator (.within reach randomFail) server).2.electNewCoordinator
            (.within reach randomFail) server) = some (elected, chosen) := by
    rcases getCoordinator_cases (.within reach randomFail) servers server with
      ⟨c, hagreed, heq⟩ | ⟨hnone, message, heq⟩
    · rw [heq]
      refine ⟨c, _, _, .found hagreed, soundServer_follow hsound c server,
        coordinator_follow hagreed, ?_, rfl, rfl⟩
      exact (hsound server).configured ▸ hagreed.mem
    · rw [heq]
      have helected := Reference.elected_runPaxos hsound hself randomFail
      have hok := @Reference.election_ok stubs servers server reach randomFail hsound hself
      have helection := @electNewCoordinator_within stubs servers server reach randomFail
        (hsound server) hne hself
      rcases hrun : runPaxos (.within reach randomFail) servers server
        (.electCoordinator "coordinator" server) with ⟨elected, chosen⟩
      rw [hrun] at helected helection hok
      obtain rfl : elected = Status.OK := hok
      refine ⟨_, chosen, Status.OK, .elected hnone helected,
        soundServer_electNewCoordinator hsound helection server,
        coordinator_of_elected helected hself, ?_, rfl, helection⟩
      exact Reference.nominee_mem hsound (Reference.mem_peers.mp hself).1 _ _
  have hstub : (chosen server).paxosStubsMap.getCoordinatorStub = some c := by
    rw [← hcoordinator]
    exact @coordinatorStub_of_listed stubs chosen server hsound' (hcoordinator ▸ hlisted)
  obtain ⟨recovered, hrecovery, hrecovered⟩ :=
    @getRecovery_within chosen server c reach randomFail hstub
  refine ⟨c, chosen, hchooses, hcoordinator, hlisted, ?_⟩
  unfold Servers.initializeServer at h
  simp only [hfirst, hok, if_true, hrecovery] at h
  cases hreach : reach c with
  | true =>
    rw [hreach] at hrecovered
    simp only [hrecovered, hreach, if_true, Option.some.injEq, Prod.mk.injEq] at h
    exact ⟨h.1 ▸ rfl, h.2.symm⟩
  | false =>
    rw [hreach] at hrecovered
    simp only [hrecovered, hreach, Bool.false_eq_true, if_false, Option.some.injEq,
      Prod.mk.injEq] at h
    exact ⟨h.1 ▸ rfl, h.2.symm⟩

end Start

namespace Deployment

variable {stubs : PaxosStubs} {d d' : Deployment} {server : Addr}

/-! ## A server that is up knows a coordinator -/

/-- Every server that is up knows a listed coordinator. -/
def Launched (stubs : PaxosStubs) (d : Deployment) : Prop :=
  ∀ a ∈ d.running, (d.servers a).paxosStubsMap.coordinator ∈ stubs.addrs

/-- A run of Paxos takes no coordinator away. -/
theorem listed_of_runPaxos {servers : Servers} {o : Outcomes} {request : Request} {a : Addr}
    (hsound : ∀ a, SoundServer stubs a (servers a))
    (h : (servers a).paxosStubsMap.coordinator ∈ stubs.addrs) :
    ((runPaxos o servers server request).2 a).paxosStubsMap.coordinator ∈ stubs.addrs := by
  rw [(Reference.affected_runPaxos o servers server request a).coordinator]
  unfold PaxosStubsMap.coordinatorAfter
  split
  · split
    · rename_i hset
      exact (hsound a).configured ▸ hset.2
    · exact h
  · exact h

theorem launched_step {act : Action} (hsound : Sound stubs d) (h : Launched stubs d)
    (hstep : step stubs d act = some d') : Launched stubs d' := by
  have hstarts : ∀ {server reach randomFail status servers},
      d.servers.initializeServer (.within reach randomFail) server = some (status, servers) →
      ∀ a ∈ d.running, a ≠ server → (servers a).paxosStubsMap.coordinator ∈ stubs.addrs := by
    intro server reach randomFail status servers hinit a ha hne
    rcases initializeServer_others hsound.servers hinit with hsame | helected
    · rw [hsame a hne]
      exact h a ha
    · rw [helected a hne]
      exact listed_of_runPaxos hsound.servers (h a ha)
  cases step_cases hstep with
  | @started server reach randomFail status servers hdown hlisted hinit hok =>
    have hself : (StartUp.within (fun a => a ∈ server :: d.reached reach)
        randomFail).election server = .delivered := if_pos (by simp)
    refine List.forall_mem_cons.mpr ⟨?_, fun a ha => ?_⟩
    · obtain ⟨chosen, c, _, hc, hmem, hafter⟩ :=
        initializeServer_ok hsound.servers hself hinit hok
      show (servers server).paxosStubsMap.coordinator ∈ stubs.addrs
      rw [hafter, Function.update_self]
      exact hc ▸ hmem
    · exact hstarts hinit a ha fun heq => hdown (heq ▸ ha)
  | @ended server reach randomFail status servers hdown hlisted hinit =>
    intro a ha
    have hne : a ≠ server := fun heq => hdown (heq ▸ ha)
    show (Function.update servers server (freshServer stubs server)
      a).paxosStubsMap.coordinator ∈ stubs.addrs
    rw [Function.update_of_ne hne]
    exact hstarts hinit a ha hne
  | @answered server request reach randomFail answer servers hup hflow =>
    intro a ha
    refine (@requestFlow_keeps _ _ _ _ _ _ _ stubs
      (fun chosen => (∀ a, SoundServer stubs a (chosen a)) ∧
        (chosen a).paxosStubsMap.coordinator ∈ stubs.addrs)
      hsound.servers ?_ ?_ hflow ⟨hsound.servers, h a ha⟩).2
    · exact fun hlisted => ⟨Solo.soundServer_runPaxos hsound.servers fun _ => ⟨rfl, hlisted⟩,
        listed_of_runPaxos hsound.servers (h a ha)⟩
    · intro chosen handler update _ _ hkey hchosen
      exact ⟨Solo.soundServer_runPaxos hchosen.1 fun heq => absurd heq hkey,
        listed_of_runPaxos hchosen.1 hchosen.2⟩
  | @crashed server hup =>
    intro a ha
    obtain ⟨ha, hne⟩ := List.mem_filter.mp ha
    show (Function.update d.servers server (freshServer stubs server)
      a).paxosStubsMap.coordinator ∈ stubs.addrs
    rw [Function.update_of_ne (by simpa using hne)]
    exact h a ha

theorem launched_of_reachable {C : Deployment → Action → Prop}
    (h : (deployment stubs).Reachable C d) : Launched stubs d := by
  refine h.invariant ?_ ?_
  · rintro d rfl a ha
    cases ha
  · intro d act d' hreach _ hstep hd
    exact launched_step (sound_of_reachable hreach) hd hstep

/-! ## Every request is answered -/

/-- What a request does in every reachable state. -/
theorem failover {C : Deployment → Action → Prop} (h : (deployment stubs).Reachable C d)
    (hup : server ∈ d.running) (hne : server ≠ "") {reach : List Addr} (hself : server ∈ reach)
    (randomFail : Message → Addr → Bool) (request : ClientRequest) :
    ∃ answer servers',
      step stubs d (.request server request reach randomFail) =
        some { d with
          servers := servers'
          answers := d.answered request (d.reached reach) answer :: d.answers } ∧
      if (d.servers server).paxosStubsMap.coordinator ∈ d.reached reach then
        (answer, servers') = d.servers.handleRequest
          (.within (fun a => a ∈ d.reached reach) randomFail)
          (d.servers server).paxosStubsMap.coordinator request
      else HandledByWinner stubs d.servers servers' (fun a => a ∈ d.reached reach) randomFail
        server request answer := by
  have hsound := sound_of_reachable h
  have hstub := coordinatorStub_of_listed (hsound.servers server)
    (launched_of_reachable h server hup)
  have hreached : server ∈ d.reached reach :=
    List.mem_filter.mpr ⟨hup, decide_eq_true hself⟩
  have hpeer : server ∈ peers stubs (fun a => a ∈ d.reached reach) :=
    Reference.mem_peers.mpr ⟨hsound.listed server hup, decide_eq_true hreached⟩
  by_cases hcoordinator : (d.servers server).paxosStubsMap.coordinator ∈ d.reached reach
  · have hflow := @requestFlow_of_reached d.servers server _
      (fun a => a ∈ d.reached reach) randomFail request hstub (decide_eq_true hcoordinator)
    refine ⟨_, _, by simp only [step, if_neg (not_not.mpr hup), hflow]; rfl, ?_⟩
    rw [if_pos hcoordinator]
  · obtain ⟨answer, servers', hflow, hwinner⟩ := @requestFlow_of_unreached stubs d.servers server _
      (fun a => a ∈ d.reached reach) randomFail request hsound.servers hne hpeer hstub
      (decide_eq_false hcoordinator)
    refine ⟨answer, servers', by simp only [step, if_neg (not_not.mpr hup), hflow], ?_⟩
    rw [if_neg hcoordinator]
    exact hwinner

/-- Three servers start, and their coordinator goes down. -/
def crashedCoordinator : List Action :=
  startServers ++ [.crash "a"]

set_option maxRecDepth 10000 in
/-- The next request makes `b` run an election, which it wins. -/
theorem failover_crashedCoordinator :
    ∃ d, (d.servers "b").paxosStubsMap.coordinator ∉ d.reached ["b", "c"] ∧
      winner (.ofReplicas ["a", "b", "c"]) d.servers (fun a => a ∈ d.reached ["b", "c"]) "b" =
        "b" ∧
      ∃ answer servers',
        step (.ofReplicas ["a", "b", "c"]) d
            (.request "b" (.put "k" "x") ["b", "c"] fun _ _ => false) =
          some { d with
            servers := servers'
            answers := d.answered (.put "k" "x") (d.reached ["b", "c"]) answer :: d.answers } ∧
        HandledByWinner (.ofReplicas ["a", "b", "c"]) d.servers servers'
          (fun a => a ∈ d.reached ["b", "c"]) (fun _ _ => false) "b" (.put "k" "x") answer := by
  have hrun : ∃ d ∈ (deployment (.ofReplicas ["a", "b", "c"])).execWhere (fun _ _ => True)
      (initial (.ofReplicas ["a", "b", "c"])) crashedCoordinator,
      "b" ∈ d.running ∧ (d.servers "b").paxosStubsMap.coordinator ∉ d.reached ["b", "c"] ∧
      winner (.ofReplicas ["a", "b", "c"]) d.servers (fun a => a ∈ d.reached ["b", "c"]) "b" =
        "b" := by
    decide +kernel
  obtain ⟨d, hreach, hup, hunreached, hwinner⟩ :=
    ActionSystem.exists_reachable_of_execWhere rfl hrun
  have hfailover := failover hreach hup (by decide) (show "b" ∈ ["b", "c"] by decide)
    (fun _ _ => false) (.put "k" "x")
  simp only [if_neg hunreached] at hfailover
  exact ⟨d, hunreached, hwinner, hfailover⟩

end Deployment

end PaxosKVStore
