import PaxosKVStore.Failover
import PaxosKVStore.RecoveredReplica
import PaxosKVStore.Restart
import PaxosKVStore.StaleReads
import PaxosKVStore.Store

/-!
# One server is enough

The servers that are up mirror one another: they hold the same values and
have logged the same rounds.  Requests keep that, because every run of Paxos
reaches all of them, and so does the loss of any server.  A server that starts
joins them, unless it comes to copy its own empty database.

So the requests are answered as by one atomic map for as long as one server is
up, whichever it is.  A coordinator that is down is replaced by the server that
the next request reaches.  There is no majority of the configured replicas in
this: the majority is one of those that are live.
-/

namespace PaxosKVStore

open Linearizability
open Reference (peers Elected Updated)

/-- A recovery adds the rounds of its source. -/
theorem KeyValueDataBase.mem_rounds_restore (db : KeyValueDataBase) (s : MultiPaxosServiceImpl)
    {key : String} {r : Int} :
    r ∈ (db.restore s.recover).rounds key ↔ r ∈ s.kvDb.rounds key ∨ r ∈ db.rounds key := by
  rw [restore_eq_restoreIn, restoreIn_eq_foldl, mem_rounds_foldl_recovered, rounds_setValues]
  simp only [RestoreOrder.mem_writes, MultiPaxosServiceImpl.lookup_recover, rounds,
    Finmap.mem_keys, Finmap.mem_iff]

/-! ## One request at one handler -/

/-- What a client is told. -/
def Answer.told (answer : Answer) : Told where
  code := answer.status.code
  value := answer.response.value

/-- What an update leaves of a server that held the entry of the map. -/
theorem Reference.Updated.entry {peers : List Addr} {update : Request} {round : Int} {ok : Bool}
    {servers servers' : Servers} {map : AtomicMap} {a : Addr} {key : String}
    (h : Updated peers update round ok servers servers') (ha : a ∈ peers)
    (hentry : (servers a).kvDb.getValue key = map key) :
    (servers' a).kvDb.getValue key = (if ok then map.apply update else map) key := by
  rw [h.value, hentry]
  cases ok with
  | false => simp
  | true =>
    by_cases heq : key = update.key
    · simp [heq, ha, AtomicMap.apply_self]
    · simp [heq, AtomicMap.apply_of_ne map (Ne.symm heq)]

/-- A handler that holds the entries of the map, and has logged every round
that its peers have, handles a request as the map does. -/
theorem handled_cases {stubs : PaxosStubs} {servers servers' : Servers} {map : AtomicMap}
    {handler : Addr} {reach : Addr → Bool} {randomFail : Message → Addr → Bool}
    {request : ClientRequest} {answer : Answer} (hsound : ∀ a, SoundServer stubs a (servers a))
    (hhandler : handler ∈ peers stubs reach)
    (hvalue : ∀ key, key ≠ "coordinator" → map key = (servers handler).kvDb.getValue key)
    (hfresh : ∀ a ∈ peers stubs reach, ∀ key, ∀ r ∈ (servers a).kvDb.rounds key,
      r ≤ (servers handler).kvDb.latestRound key)
    (hhandled : HandledAt servers servers' reach randomFail request answer handler) :
    (store.allows map request answer.told map ∧ servers' = servers) ∨
      ∃ update ok,
        store.allows map request answer.told (if ok then map.apply update else map) ∧
        Updated (peers stubs reach) update
          ((servers handler).kvDb.latestRound update.key + 1) ok servers servers' := by
  obtain ⟨_, handled, hhandled, _, hresponse, hcode⟩ := hhandled
  have htold : answer.told = handled.told := by
    rw [Answer.told, hresponse, hcode, Answer.told]
  rw [htold]
  cases hrequest : request.update with
  | none =>
    rw [handleRequest_get hrequest] at hhandled
    cases hhandled
    refine Or.inl ⟨?_, rfl⟩
    cases request with
    | get key => exact Store.allows_getValue hvalue {} key
    | put key value => cases hrequest
    | delete key => cases hrequest
  | some update =>
    have hkey := ClientRequest.key_of_update hrequest
    rw [handleRequest_of_update hrequest, Prod.mk.injEq] at hhandled
    obtain ⟨rfl, rfl⟩ := hhandled
    rcases @update_cases servers handler _ (.within reach randomFail) _ hrequest with
      ⟨_, hfailed, hsame⟩ | ⟨hclient, hrun⟩
    · rw [hsame]
      rcases update_code servers (.within reach randomFail) handler update with hok | haborted
      · simp [Status.ok, hok] at hfailed
      · refine Or.inl ⟨.failed _ ?_ ?_, rfl⟩ <;> simp [haborted]
    · rw [hrun]
      refine Or.inr ⟨update, _, ?_, Reference.updated_runPaxos hsound hhandler
        (ClientRequest.isUpdate_of_update hrequest) (fun a ha => hfresh a ha update.key)
        randomFail⟩
      rcases runPaxos_code (.within reach randomFail) servers handler update with hok | haborted
      · rw [if_pos (by simp [Status.ok, hok]), Answer.told, hok]
        exact .done hrequest (hkey ▸ hclient)
      · rw [if_neg (by simp [Status.ok, haborted])]
        refine .failed _ ?_ ?_ <;> simp [haborted]

/-! ## Servers that mirror one another -/

/-- The group holds the entries of the map, with the same rounds logged. -/
structure Mirrored (servers : Servers) (group : List Addr) (map : AtomicMap) : Prop where
  value : ∀ a ∈ group, ∀ key, key ≠ "coordinator" → (servers a).kvDb.getValue key = map key
  rounds : ∀ a ∈ group, ∀ b ∈ group, ∀ key,
    (servers a).kvDb.rounds key = (servers b).kvDb.rounds key

namespace Mirrored

variable {stubs : PaxosStubs} {servers servers' : Servers} {group : List Addr} {map : AtomicMap}
  {server handler a c : Addr} {reach : Addr → Bool} {randomFail : Message → Addr → Bool}
  {request : ClientRequest} {answer : Answer}

theorem latestRound (h : Mirrored servers group map) {b : Addr} (ha : a ∈ group) (hb : b ∈ group)
    (key : String) : (servers a).kvDb.latestRound key = (servers b).kvDb.latestRound key :=
  KeyValueDataBase.latestRound_congr (h.rounds a ha b hb key)

/-- An election among the group changes nothing of this. -/
theorem elected (h : Mirrored servers group map) {round : Int}
    (helected : Elected (peers stubs reach) round c servers servers')
    (hgroup : ∀ a ∈ group, a ∈ peers stubs reach) : Mirrored servers' group map where
  value a ha key hkey := (helected.value a key).trans (h.value a ha key hkey)
  rounds a ha b hb key := by
    ext r
    rw [helected.rounds, helected.rounds, h.rounds a ha b hb key]
    simp [hgroup a ha, hgroup b hb]

/-- The winner of an election that a member of the group runs is itself. -/
theorem winner_eq (h : Mirrored servers group map) (hserver : server ∈ group)
    (hpeers : ∀ a ∈ peers stubs reach, a ∈ group) :
    winner stubs servers reach server = server := by
  have hnone : (peers stubs reach).find? (fun a => 0 < ((servers a).kvDb.paxosLog "coordinator"
      (electionRound servers server)).acceptedId) = none := by
    refine List.find?_eq_none.mpr fun a ha hpos => ?_
    have hlog : (servers a).kvDb.paxosLog "coordinator" (electionRound servers server) = {} := by
      refine KeyValueDataBase.paxosLog_of_notMem fun hmem => ?_
      have hle := KeyValueDataBase.le_latestRound hmem
      rw [h.latestRound (hpeers a ha) hserver, electionRound] at hle
      omega
    rw [hlog] at hpos
    exact absurd hpos (by decide)
  rw [winner, Reference.nomineeAmong, hnone]

/-- An update by a member of the group takes effect everywhere or nowhere. -/
theorem updated (h : Mirrored servers group map) {update : Request} {round : Int} {ok : Bool}
    (hupdated : Updated (peers stubs reach) update round ok servers servers')
    (hgroup : ∀ a ∈ group, a ∈ peers stubs reach) :
    Mirrored servers' group (if ok then map.apply update else map) where
  value a ha key hkey := hupdated.entry (hgroup a ha) (h.value a ha key hkey)
  rounds a ha b hb key := by
    ext r
    rw [hupdated.rounds, hupdated.rounds, h.rounds a ha b hb key]
    simp [hgroup a ha, hgroup b hb]

/-- A member of the group runs an update. -/
theorem updated_runPaxos (h : Mirrored servers group map)
    (hsound : ∀ a, SoundServer stubs a (servers a)) (hhandler : handler ∈ group)
    (hmem : ∀ a, a ∈ group ↔ a ∈ peers stubs reach) {update : Request}
    (hupdate : update.IsUpdate) :
    Mirrored (runPaxos (.within reach randomFail) servers handler update).2 group
      (if (runPaxos (.within reach randomFail) servers handler update).1.ok
        then map.apply update else map) := by
  refine h.updated (Reference.updated_runPaxos hsound ((hmem handler).mp hhandler) hupdate
    (fun a ha r hr => ?_) randomFail) fun a => (hmem a).mp
  rw [h.rounds a ((hmem a).mpr ha) handler hhandler] at hr
  exact KeyValueDataBase.le_latestRound hr

/-- A member of the group handles a request as the atomic map does. -/
theorem handleRequest (h : Mirrored servers group map)
    (hsound : ∀ a, SoundServer stubs a (servers a)) (hhandler : handler ∈ group)
    (hmem : ∀ a, a ∈ group ↔ a ∈ peers stubs reach)
    (hhandled : HandledAt servers servers' reach randomFail request answer handler) :
    ∃ map', store.allows map request answer.told map' ∧ Mirrored servers' group map' := by
  have hfresh : ∀ a ∈ peers stubs reach, ∀ key, ∀ r ∈ (servers a).kvDb.rounds key,
      r ≤ (servers handler).kvDb.latestRound key := by
    intro a ha key r hr
    rw [h.rounds a ((hmem a).mpr ha) handler hhandler] at hr
    exact KeyValueDataBase.le_latestRound hr
  rcases handled_cases hsound ((hmem handler).mp hhandler)
    (fun key hkey => (h.value handler hhandler key hkey).symm) hfresh hhandled with
    ⟨hallows, rfl⟩ | ⟨update, ok, hallows, hupdated⟩
  · exact ⟨map, hallows, h⟩
  · exact ⟨_, hallows, h.updated hupdated fun a => (hmem a).mp⟩

/-- What the group can do with a request depends on the group only. -/
theorem congr {group' : List Addr} (h : Mirrored servers group map)
    (hsame : ∀ a ∈ group', a ∈ group ∧ servers' a = servers a) :
    Mirrored servers' group' map where
  value a ha key hkey := by
    rw [(hsame a ha).2]
    exact h.value a (hsame a ha).1 key hkey
  rounds a ha b hb key := by
    rw [(hsame a ha).2, (hsame b hb).2]
    exact h.rounds a (hsame a ha).1 b (hsame b hb).1 key

/-- Every request to the group is handled in the group. -/
theorem handled_of_requestFlow (h : Mirrored servers group map)
    (hsound : ∀ a, SoundServer stubs a (servers a)) (hserver : server ∈ group) (hne : server ≠ "")
    (hmem : ∀ a, a ∈ group ↔ a ∈ peers stubs reach)
    (hlisted : (servers server).paxosStubsMap.coordinator ∈ stubs.addrs)
    (hflow : servers.requestFlow reach randomFail server request = some (answer, servers')) :
    ∃ chosen, ∃ handler ∈ group, (∀ a, SoundServer stubs a (chosen a)) ∧
      Mirrored chosen group map ∧
      HandledAt chosen servers' reach randomFail request answer handler := by
  have hstub := coordinatorStub_of_listed (hsound server) hlisted
  cases hreach : reach (servers server).paxosStubsMap.coordinator with
  | true =>
    rw [requestFlow_of_reached hstub hreach, Option.some.injEq] at hflow
    exact ⟨servers, _, (hmem _).mpr (Reference.mem_peers.mpr ⟨hlisted, hreach⟩), hsound, h,
      hreach, answer, hflow, handledBy_handleRequest hflow, rfl, rfl⟩
  | false =>
    obtain ⟨answer', servers'', hflow', chosen, hsound', helected, hhandled⟩ :=
      requestFlow_of_unreached hsound hne ((hmem server).mp hserver) hstub hreach
    rw [hflow, Option.some.injEq, Prod.mk.injEq] at hflow'
    obtain ⟨rfl, rfl⟩ := hflow'
    rw [h.winner_eq hserver fun a => (hmem a).mpr] at helected hhandled
    rw [if_pos (Reference.mem_peers.mp ((hmem server).mp hserver)).2] at hhandled
    exact ⟨chosen, server, hserver, hsound', h.elected helected fun a => (hmem a).mp, hhandled⟩

/-! ### A server that joins -/

/-- What a server that starts does before it recovers, the group does not
notice. -/
theorem chooses (h : Mirrored servers group map) {chosen : Servers} (hserver : server ∉ group)
    (hgroup : ∀ a ∈ group, a ∈ peers stubs reach)
    (hchooses : Chooses stubs servers reach randomFail server c chosen) :
    Mirrored chosen group map := by
  cases hchooses with
  | found hagreed =>
    refine h.congr fun a ha => ⟨ha, Function.update_of_ne ?_ ..⟩
    rintro rfl
    exact hserver ha
  | elected hnone helected => exact h.elected helected hgroup

/-- Until then a fresh server holds nothing, and has logged no round that its
peers have not. -/
theorem fresh_of_chooses {chosen : Servers} (hfresh : servers server = freshServer stubs server)
    (hchooses : Chooses stubs servers reach randomFail server c chosen) (key : String) :
    (chosen server).kvDb.getValue key = none ∧ ∀ a ∈ peers stubs reach,
      ∀ r ∈ (chosen server).kvDb.rounds key, r ∈ (chosen a).kvDb.rounds key := by
  cases hchooses with
  | found hagreed =>
    rw [kvDb_follow, hfresh]
    refine ⟨KeyValueDataBase.getValue_empty key, fun a _ r hr => ?_⟩
    simp [freshServer] at hr
  | elected hnone helected =>
    rw [helected.value, hfresh]
    refine ⟨KeyValueDataBase.getValue_empty key, fun a ha r hr => ?_⟩
    rcases (helected.rounds server key r).mp hr with ⟨_, hkey, hround⟩ | hr
    · exact (helected.rounds a key r).mpr (Or.inl ⟨ha, hkey, hround⟩)
    · rw [hfresh] at hr
      simp [freshServer] at hr

/-- A server that recovers from a member of the group belongs to it. -/
theorem recovered (h : Mirrored servers group map) (hserver : server ∉ group) (hc : c ∈ group)
    (hempty : ∀ key, (servers server).kvDb.getValue key = none)
    (hrounds : ∀ key, ∀ r ∈ (servers server).kvDb.rounds key, r ∈ (servers c).kvDb.rounds key) :
    Mirrored (servers.recoveredFrom server c) (server :: group) map := by
  have hothers : ∀ a ∈ group, servers.recoveredFrom server c a = servers a := by
    intro a ha
    refine Servers.recoveredFrom_of_ne ?_
    rintro rfl
    exact hserver ha
  have hrounds' : ∀ a ∈ server :: group, ∀ key,
      (servers.recoveredFrom server c a).kvDb.rounds key = (servers c).kvDb.rounds key := by
    intro a ha key
    rcases List.mem_cons.mp ha with rfl | ha
    · ext r
      rw [Servers.kvDb_recoveredFrom, KeyValueDataBase.mem_rounds_restore]
      exact or_iff_left_of_imp (hrounds key r)
    · rw [hothers a ha]
      exact h.rounds a ha c hc key
  refine ⟨fun a ha key hkey => ?_, fun a ha b hb key => ?_⟩
  · rcases List.mem_cons.mp ha with rfl | ha
    · rw [Servers.kvDb_recoveredFrom, KeyValueDataBase.getValue_restore, hempty, Option.or_none]
      exact h.value c hc key hkey
    · rw [hothers a ha]
      exact h.value a ha key hkey
  · rw [hrounds' a ha, hrounds' b hb]

end Mirrored

namespace Deployment

variable {stubs : PaxosStubs} {d d' : Deployment} {server : Addr}

/-! ## Runs -/

/-- A request with what its client was told. -/
def Answered.performed (x : Answered) : ClientRequest × Told := (x.request, x.answer.told)

/-- A server that starts finds a coordinator, or its election is won by
somebody else.  Nobody can be expected to have data before the first start. -/
def FindsSource (stubs : PaxosStubs) (d : Deployment) (server : Addr) : Prop :=
  d.running = [] ∨
    (∃ c ∈ d.running, ∀ a ∈ d.running, (d.servers a).paxosStubsMap.coordinator = c) ∨
      winner stubs d.servers (fun a => a ∈ server :: d.running) server ≠ server

instance (stubs : PaxosStubs) (d : Deployment) (server : Addr) :
    Decidable (FindsSource stubs d server) :=
  inferInstanceAs (Decidable (_ ∨ (∃ c ∈ d.running, ∀ a ∈ d.running,
    (d.servers a).paxosStubsMap.coordinator = c) ∨ _))

/-- The calls between servers that are up are delivered, a server that starts
finds a source for its data, and the last server does not go down. -/
def Connected (stubs : PaxosStubs) (d : Deployment) (act : Action) : Prop :=
  d.Delivered act ∧
    match act with
    | .start server _ _ => FindsSource stubs d server
    | .request _ _ _ _ => True
    | .crash server => ∃ a ∈ d.running, a ≠ server

instance (stubs : PaxosStubs) (d : Deployment) (act : Action) : Decidable (d.Connected stubs act) :=
  match act with
  | .start _ _ _ => inferInstanceAs (Decidable (_ ∧ FindsSource stubs d _))
  | .request _ _ _ _ => inferInstanceAs (Decidable (_ ∧ True))
  | .crash server => inferInstanceAs (Decidable (_ ∧ ∃ a ∈ d.running, a ≠ server))

/-- The answers are those of the atomic map, and every server that is up holds
its entries. -/
structure Replicated (d : Deployment) (map : AtomicMap) : Prop where
  runs : Runs store (d.answers.map Answered.performed) map
  mirrored : Mirrored d.servers d.running map
  handled : ∀ x ∈ d.answers, x.answer.handledBy.isSome = true
  launched : d.running = [] → d.answers = []

theorem reached_of_forall {reach : List Addr} (h : ∀ a ∈ d.running, a ∈ reach) :
    d.reached reach = d.running :=
  List.filter_eq_self.mpr fun a ha => decide_eq_true (h a ha)

/-- The servers that are up are the peers of each of them. -/
theorem mem_peers_running (hsound : Sound stubs d) (a : Addr) :
    a ∈ d.running ↔ a ∈ peers stubs (fun a => a ∈ d.running) := by
  rw [Reference.mem_peers, decide_eq_true_iff]
  exact ⟨fun ha => ⟨hsound.listed a ha, ha⟩, And.right⟩

/-- A discovery finds the coordinator that all others name. -/
theorem agreed_of_named (hempty : "" ∉ stubs.addrs) (hsound : Sound stubs d)
    (hdown : server ∉ d.running) {reached : List Addr} (hreached : ∀ a ∈ reached, a ∈ d.running)
    {c : Addr} (hc : c ∈ reached)
    (hnames : ∀ a ∈ d.running, (d.servers a).paxosStubsMap.coordinator = c)
    (randomFail : Message → Addr → Bool) :
    Agreed (.within (fun a => a ∈ server :: reached) randomFail) d.servers server c := by
  have hstubs : (d.servers server).paxosStubsMap.getPaxosStubs = stubs.addrs := by
    rw [PaxosStubsMap.getPaxosStubs, (hsound.servers server).configured]
  have hlisted := hsound.listed c (hreached c hc)
  refine ⟨hstubs ▸ hlisted, ⟨if_pos (by simp [hc]), ?_⟩, fun a _ hanswers => ?_⟩
  · rw [hnames c (hreached c hc)]
    exact fun heq => hempty (heq ▸ hlisted)
  · rcases List.mem_cons.mp (of_decide_eq_true (reach_of_answers hanswers)) with rfl | ha
    · exact absurd (by rw [hsound.fresh a hdown]; rfl) hanswers.2
    · exact hnames a (hreached a ha)

/-- Only the first server copies itself. -/
theorem first_of_self (hempty : "" ∉ stubs.addrs) (hsound : Sound stubs d)
    (hdown : server ∉ d.running) (hfinds : FindsSource stubs d server)
    {randomFail : Message → Addr → Bool} {c : Addr} {chosen : Servers}
    (hchooses : Chooses stubs d.servers (fun a => a ∈ server :: d.running) randomFail server c
      chosen) (hself : c = server) : d.running = [] := by
  cases hchooses with
  | found hagreed =>
    rw [hself] at hagreed
    exact absurd (by rw [hsound.fresh server hdown]; rfl) hagreed.answers.2
  | elected hnone helected =>
    rcases hfinds with hfirst | ⟨c, hc, hnames⟩ | hother
    · exact hfirst
    · exact absurd (agreed_of_named hempty hsound hdown (fun a => id) hc hnames randomFail)
        (hnone c)
    · exact absurd hself hother

/-- A start that finds a source adds a server with the data of the others. -/
theorem replicated_started {map : AtomicMap} (hempty : "" ∉ stubs.addrs) (h : Replicated d map)
    (hsound : Sound stubs d) (hdown : server ∉ d.running) (hlisted : server ∈ stubs.addrs)
    (hfinds : FindsSource stubs d server)
    {randomFail : Message → Addr → Bool} {status : Status} {servers : Servers}
    (hinit : d.servers.initializeServer (.within (fun a => a ∈ server :: d.running) randomFail)
      server = some (status, servers)) :
    Mirrored servers d.running map ∧
      (status.ok = true → Mirrored servers (server :: d.running) map) := by
  set reach : Addr → Bool := fun a => a ∈ server :: d.running with hreach
  have hne : server ≠ "" := fun heq => hempty (heq ▸ hlisted)
  have hself : server ∈ peers stubs reach := Reference.mem_peers.mpr ⟨hlisted, by simp [hreach]⟩
  have hgroup : ∀ a ∈ d.running, a ∈ peers stubs reach := fun a ha =>
    Reference.mem_peers.mpr ⟨hsound.listed a ha, by simp [hreach, ha]⟩
  have hfresh := hsound.fresh server hdown
  obtain ⟨c, chosen, hchooses, hcoordinator, hc, hok, rfl⟩ :=
    initializeServer_within hsound.servers hne hself hinit
  have hmirrored := h.mirrored.chooses hdown hgroup hchooses
  have hothers : ∀ a ∈ d.running, chosen.recoveredFrom server c a = chosen a := by
    intro a ha
    refine Servers.recoveredFrom_of_ne ?_
    rintro rfl
    exact hdown ha
  constructor
  · split
    · exact hmirrored.congr fun a ha => ⟨ha, hothers a ha⟩
    · exact hmirrored
  · intro hstatus
    rw [hok] at hstatus
    rw [if_pos hstatus]
    have hmem : c ∈ server :: d.running := of_decide_eq_true hstatus
    rcases List.mem_cons.mp hmem with hself' | hmem
    · have hfirst := first_of_self hempty hsound hdown hfinds hchooses hself'
      subst hself'
      have hmap := h.runs
      rw [h.launched hfirst] at hmap
      cases hmap
      rw [hfirst]
      refine ⟨fun a ha key hkey => ?_, fun a ha b hb key => ?_⟩
      · rw [List.mem_singleton.mp ha, Servers.kvDb_recoveredFrom,
          KeyValueDataBase.getValue_restore]
        have hnone := (Mirrored.fresh_of_chooses hfresh hchooses key).1
        rw [hnone, Option.or_none]
        exact hnone.trans (if_neg hkey).symm
      · rw [List.mem_singleton.mp ha, List.mem_singleton.mp hb]
    · exact hmirrored.recovered hdown hmem
        (fun key => (Mirrored.fresh_of_chooses hfresh hchooses key).1)
        fun key => (Mirrored.fresh_of_chooses hfresh hchooses key).2 c (hgroup c hmem)

theorem replicated_step {act : Action} (hempty : "" ∉ stubs.addrs) (hsound : Sound stubs d)
    (hlaunched : Launched stubs d) (hcond : d.Connected stubs act)
    (h : ∃ map, Replicated d map) (hstep : step stubs d act = some d') :
    ∃ map, Replicated d' map := by
  obtain ⟨map, h⟩ := h
  cases step_cases hstep with
  | @started server reach randomFail status servers hdown hlisted hinit hok =>
    obtain ⟨hreach, hfinds⟩ := hcond
    rw [reached_of_forall hreach] at hinit
    obtain ⟨_, hmirrored⟩ := replicated_started hempty h hsound hdown hlisted hfinds hinit
    exact ⟨map, h.runs, hmirrored hok, h.handled, fun hnil => by cases hnil⟩
  | @ended server reach randomFail status servers hdown hlisted hinit =>
    obtain ⟨hreach, hfinds⟩ := hcond
    rw [reached_of_forall hreach] at hinit
    obtain ⟨hmirrored, _⟩ := replicated_started hempty h hsound hdown hlisted hfinds hinit
    refine ⟨map, h.runs, hmirrored.congr fun a ha => ⟨ha, Function.update_of_ne ?_ ..⟩, h.handled,
      h.launched⟩
    rintro rfl
    exact hdown ha
  | @answered server request reach randomFail answer servers hup hflow =>
    have hreach : ∀ a ∈ d.running, a ∈ reach := hcond.1
    rw [reached_of_forall hreach] at hflow ⊢
    have hne : server ≠ "" := fun heq => hempty (heq ▸ hsound.listed server hup)
    obtain ⟨chosen, handler, hhandler, hsound', hmirrored, hhandled⟩ :=
      h.mirrored.handled_of_requestFlow hsound.servers hup hne (mem_peers_running hsound)
        (hlaunched server hup) hflow
    obtain ⟨map', hallows, hmirrored'⟩ := hmirrored.handleRequest hsound' hhandler
      (mem_peers_running hsound) hhandled
    refine ⟨map', .cons h.runs hallows, hmirrored', ?_, fun hnil => ?_⟩
    · obtain ⟨_, _, _, hby, _⟩ := hhandled
      exact List.forall_mem_cons.mpr ⟨congrArg Option.isSome hby, h.handled⟩
    · rw [List.eq_nil_iff_forall_not_mem] at hnil
      exact absurd hup (hnil server)
  | @crashed server hup =>
    obtain ⟨_, a, ha, hne⟩ := hcond
    refine ⟨map, h.runs, h.mirrored.congr fun b hb => ?_, h.handled, fun hnil => ?_⟩
    · obtain ⟨hb, hother⟩ := List.mem_filter.mp hb
      exact ⟨hb, Function.update_of_ne (by simpa using hother) ..⟩
    · exact absurd (List.mem_filter.mpr ⟨ha, by simpa using hne⟩)
        (List.eq_nil_iff_forall_not_mem.mp hnil a)

/-- Whatever servers go down and come back, all requests are handled, their
answers are those of the atomic map, and all servers that are up hold it. -/
theorem replicated_of_reachable (hempty : "" ∉ stubs.addrs)
    (h : (deployment stubs).Reachable (Connected stubs) d) : ∃ map, Replicated d map := by
  refine h.invariant (I := fun d => ∃ map, Replicated d map) ?_ ?_
  · rintro d rfl
    exact ⟨.initial, .nil, ⟨fun a ha => absurd ha List.not_mem_nil, fun a ha => absurd ha
      List.not_mem_nil⟩, fun x hx => absurd hx List.not_mem_nil, fun _ => rfl⟩
  · intro d act d' hreach hcond hstep hd
    exact replicated_step hempty (sound_of_reachable hreach) (launched_of_reachable hreach) hcond
      hd hstep

/-- Two coordinators go down in turn, and the first one comes back between. -/
def twoFailovers : List Action :=
  startServers ++
    [.request "b" (.put "k" "x") ["a", "b", "c"] fun _ _ => false, .crash "a",
      .request "c" (.put "k" "y") ["a", "b", "c"] fun _ _ => false,
      .start "a" ["a", "b", "c"] fun _ _ => false, .crash "c", .crash "b",
      .request "a" (.get "k") ["a", "b", "c"] fun _ _ => false]

set_option maxRecDepth 10000 in
/-- The first one has the last value in the end, and is alone. -/
theorem replicated_twoFailovers :
    ∃ d : Deployment, d.running = ["a"] ∧ (d.servers "a").kvDb.getValue "k" = some "y" ∧
      ∃ map, Replicated d map := by
  have hrun : ∃ d ∈ (deployment (.ofReplicas ["a", "b", "c"])).execWhere
      (Connected (.ofReplicas ["a", "b", "c"])) (initial (.ofReplicas ["a", "b", "c"]))
      twoFailovers, d.running = ["a"] ∧ (d.servers "a").kvDb.getValue "k" = some "y" := by
    decide +kernel
  obtain ⟨d, hreach, hrunning, hvalue⟩ := ActionSystem.exists_reachable_of_execWhere rfl hrun
  exact ⟨d, hrunning, hvalue, replicated_of_reachable (by decide) hreach⟩

/-- Without random failures an update of a client succeeds, at every server
that is up. -/
theorem available_of_reachable (hempty : "" ∉ stubs.addrs)
    (h : (deployment stubs).Reachable (Connected stubs) d) (hup : server ∈ d.running)
    {request : ClientRequest} {update : Request} (hupdate : request.update = some update)
    (hkey : request.key ≠ "coordinator") {reach : List Addr}
    (hreach : ∀ a ∈ d.running, a ∈ reach) {randomFail : Message → Addr → Bool}
    (hreliable : ∀ msg, ∀ a ∈ d.running, randomFail msg a = false) :
    ∃ answer servers',
      step stubs d (.request server request reach randomFail) =
        some { d with
          servers := servers'
          answers := d.answered request d.running answer :: d.answers } ∧
      answer.status.ok = true ∧
      ∀ a ∈ d.running, (servers' a).kvDb.getValue request.key = update.outcome := by
  obtain ⟨map, hmap⟩ := replicated_of_reachable hempty h
  have hsound := sound_of_reachable h
  have hne : server ≠ "" := fun heq => hempty (heq ▸ hsound.listed server hup)
  have hmem := mem_peers_running hsound
  obtain ⟨⟨answer, servers'⟩, hflow⟩ := Option.isSome_iff_exists.mp
    (@requestFlow_isSome d.servers (fun a => a ∈ d.running) randomFail server request stubs
      hsound.servers (hsound.listed server hup) hne)
  obtain ⟨chosen, handler, hhandler, hsound', hmirrored, _, handled, hhandled, _, _, hcode⟩ :=
    hmap.mirrored.handled_of_requestFlow hsound.servers hup hne hmem
      (launched_of_reachable h server hup) hflow
  refine ⟨answer, servers', ?_, ?_⟩
  · simp only [step, if_neg (not_not.mpr hup), reached_of_forall hreach, hflow]
  have hkey' := ClientRequest.key_of_update hupdate
  rcases @update_cases chosen handler _ (.within (fun a => a ∈ d.running) randomFail) _ hupdate
    with ⟨hreserved, _⟩ | ⟨_, hrun⟩
  · exact absurd (hkey' ▸ hreserved) hkey
  have hok : (runPaxos (.within (fun a => a ∈ d.running) randomFail) chosen handler update).1.ok =
      true := by
    refine Reference.update_ok hsound' ((hmem handler).mp hhandler) fun msg a ha => ?_
    exact hreliable msg a ((hmem a).mpr ha)
  have hafter : Mirrored (runPaxos (.within (fun a => a ∈ d.running) randomFail) chosen handler
      update).2 d.running _ :=
    hmirrored.updated_runPaxos hsound' hhandler hmem (ClientRequest.isUpdate_of_update hupdate)
  rw [handleRequest_of_update hupdate, hrun, Prod.mk.injEq] at hhandled
  obtain ⟨rfl, rfl⟩ := hhandled
  refine ⟨?_, fun a ha => ?_⟩
  · rw [Status.ok, hcode]
    exact hok
  · rw [if_pos hok] at hafter
    rw [hafter.value a ha request.key hkey, ← hkey']
    exact AtomicMap.apply_self map update

set_option maxRecDepth 10000 in
/-- The last server takes over the updates. -/
theorem available_lastServer :
    ∃ d : Deployment, d.running = ["c"] ∧ (d.servers "c").paxosStubsMap.coordinator = "a" ∧
      ∃ answer servers',
        step (.ofReplicas ["a", "b", "c"]) d (.request "c" (.put "k" "z") ["c"] fun _ _ => false) =
          some { d with
            servers := servers'
            answers := d.answered (.put "k" "z") d.running answer :: d.answers } ∧
        answer.status.ok = true ∧
        ∀ a ∈ d.running, (servers' a).kvDb.getValue "k" = some "z" := by
  have hrun : ∃ d ∈ (deployment (.ofReplicas ["a", "b", "c"])).execWhere
      (Connected (.ofReplicas ["a", "b", "c"])) (initial (.ofReplicas ["a", "b", "c"]))
      (startServers ++ [.crash "b", .crash "a"]),
      d.running = ["c"] ∧ (d.servers "c").paxosStubsMap.coordinator = "a" := by
    decide +kernel
  obtain ⟨d, hreach, hrunning, hcoordinator⟩ :=
    ActionSystem.exists_reachable_of_execWhere rfl hrun
  have hup : "c" ∈ d.running := by
    rw [hrunning]
    decide
  have hreached : ∀ a ∈ d.running, a ∈ ["c"] := by
    rw [hrunning]
    exact fun a ha => ha
  have hkey : (ClientRequest.put "k" "z").key ≠ "coordinator" := by decide
  have hupdate : (ClientRequest.put "k" "z").update = some (.put "k" "z") := rfl
  exact ⟨d, hrunning, hcoordinator,
    available_of_reachable (by decide) hreach hup hupdate hkey hreached fun _ _ _ => rfl⟩

end Deployment

end PaxosKVStore
