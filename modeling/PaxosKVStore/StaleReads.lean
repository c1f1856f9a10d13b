import PaxosKVStore.AtomicMap
import PaxosKVStore.Deployment

/-!
# What a GET reports

A GET is answered from the database of the coordinator, without a run of
Paxos.  A run of Paxos reaches the servers that are live at that time, and
nobody brings the other ones up to date later.  So a coordinator that was
elected since may report an older value.  A coordinator that has missed rounds
may also choose a round for a PUT that others have left behind, and then the
PUT is answered OK without its effect.

`freshReads_of_reachable` leaves out these two situations, and no other.
-/

namespace PaxosKVStore

/-- What the answer to a GET says about the key. -/
def Answer.value (answer : Answer) : Option String :=
  if answer.status.ok then some answer.response.value else none

namespace Deployment

/-! ## Reads and writes -/

namespace Answered

/-- A PUT or DELETE on `key`. -/
def IsWrite (key : String) (x : Answered) : Prop :=
  x.request.key = key ∧ x.request.update.isSome = true

instance (key : String) (x : Answered) : Decidable (x.IsWrite key) :=
  inferInstanceAs (Decidable (_ ∧ _))

/-- A GET that was answered OK or NOT_FOUND. -/
def IsRead (x : Answered) : Prop :=
  x.request.update = none ∧ (x.answer.status.code = .ok ∨ x.answer.status.code = .notFound)

instance (x : Answered) : Decidable x.IsRead :=
  inferInstanceAs (Decidable (_ ∧ _))

/-- The value that a GET reports. -/
def value (x : Answered) : Option String := x.answer.value

/-- The value that a PUT or DELETE leaves. -/
def outcome (x : Answered) : Option String :=
  x.request.update.bind Request.outcome

/-- The server that answered was among those that could be reached at the
time of `write`. -/
def HandledAmong (x write : Answered) : Prop :=
  ∃ server ∈ x.answer.handledBy, server ∈ write.reached

instance (x write : Answered) : Decidable (x.HandledAmong write) :=
  inferInstanceAs (Decidable (∃ server ∈ x.answer.handledBy, server ∈ write.reached))

theorem HandledAmong.mem {x write : Answered} (h : x.HandledAmong write) {server : Addr}
    (hby : x.answer.handledBy = some server) : server ∈ write.reached := by
  obtain ⟨server', hby', hmem⟩ := h
  rw [Option.mem_def, hby] at hby'
  cases hby'
  exact hmem

end Answered

/-- The last PUT or DELETE on `key`. -/
def lastWrite (key : String) (answers : List Answered) : Option Answered :=
  answers.find? fun x => x.IsWrite key

/-- Every GET reports the outcome of the last PUT or DELETE on its key, if
that was answered OK and `P` holds of the two. -/
def FreshReads (P : Answered → Answered → Prop) : List Answered → Prop
  | [] => True
  | read :: answers =>
      (read.IsRead → ∀ write ∈ lastWrite read.request.key answers,
        write.answer.status.ok = true → P read write → read.value = write.outcome) ∧
      FreshReads P answers

/-- Fewer reads are asked to be fresh. -/
theorem FreshReads.mono {P Q : Answered → Answered → Prop} {answers : List Answered}
    (hPQ : ∀ read, ∀ write ∈ answers, write.IsWrite read.request.key →
      write.answer.status.ok = true → Q read write → P read write)
    (h : FreshReads P answers) : FreshReads Q answers := by
  induction answers with
  | nil => trivial
  | cons read answers ih =>
    refine ⟨fun hread write hwrite hok hQ => h.1 hread write hwrite hok ?_, ih ?_ h.2⟩
    · have hmem := List.mem_of_find?_eq_some hwrite
      have his : write.IsWrite read.request.key := by simpa using List.find?_some hwrite
      exact hPQ read write (List.mem_cons_of_mem _ hmem) his hok hQ
    · exact fun read' write hwrite => hPQ read' write (List.mem_cons_of_mem _ hwrite)

instance (P : Answered → Answered → Prop) [∀ read write, Decidable (P read write)] :
    ∀ answers, Decidable (FreshReads P answers)
  | [] => isTrue trivial
  | _ :: answers =>
      have := instDecidableFreshReads P answers
      inferInstanceAs (Decidable (_ ∧ _))

/-- The server that answers a GET was live in the run of the last write, and
that run was on a coordinator with the highest round among the live servers. -/
def CaughtUp (read write : Answered) : Prop :=
  write.upToDate = true ∧ read.HandledAmong write

/-- No server crashes.  A majority of the replicas can be reached while a
request is handled, and the server that received it is among them. -/
def Served (stubs : PaxosStubs) (d : Deployment) : Action → Prop
  | .start _ _ _ => True
  | .request server _ reach _ =>
      server ∈ d.reached reach ∧
        stubs.addrs.length / 2 < (stubs.addrs.filter fun a => a ∈ d.reached reach).length
  | .crash _ => False

instance (stubs : PaxosStubs) (d : Deployment) (act : Action) : Decidable (d.Served stubs act) :=
  match act with
  | .start _ _ _ => isTrue trivial
  | .request _ _ _ _ => inferInstanceAs (Decidable (_ ∧ _))
  | .crash _ => isFalse id

/-! ## Keys that nobody writes -/

section SameAt

variable {stubs : PaxosStubs} {servers servers' : Servers} {server : Addr} {key : String}

/-- An election leaves the keys of the clients alone. -/
theorem election_sameAt (o : Outcomes) (servers : Servers) (server : Addr)
    (hkey : key ≠ "coordinator") (a : Addr) : Solo.SameAt key (servers a)
      ((runPaxos o servers server (.electCoordinator "coordinator" server)).2 a) := by
  have hother : (Request.electCoordinator "coordinator" server).key ≠ key := hkey.symm
  exact Solo.runPaxos_sameAt hother a

theorem electNewCoordinator_sameAt {e : StartUp} {status : Status}
    (hsound : ∀ a, SoundServer stubs a (servers a))
    (h : servers.electNewCoordinator e server = some (status, servers'))
    (hkey : key ≠ "coordinator") (a : Addr) : Solo.SameAt key (servers a) (servers' a) := by
  obtain ⟨_, rfl | rfl, _⟩ := electNewCoordinator_cases hsound h
  · exact .refl key _
  · exact election_sameAt _ _ _ hkey a

/-- So does the start of another server. -/
theorem initializeServer_sameAt {e : StartUp} {status : Status}
    (hsound : ∀ a, SoundServer stubs a (servers a))
    (h : servers.initializeServer e server = some (status, servers'))
    (hkey : key ≠ "coordinator") {a : Addr} (ha : a ≠ server) :
    Solo.SameAt key (servers a) (servers' a) := by
  rcases initializeServer_others hsound h with hothers | hothers
  · rw [hothers a ha]
    exact .refl key _
  · rw [hothers a ha]
    exact election_sameAt _ _ _ hkey a

variable {reach : Addr → Bool} {randomFail : Message → Addr → Bool} {request : ClientRequest}
  {answer : Answer}

/-- So does a request that does not write there. -/
theorem requestFlow_sameAt (hsound : ∀ a, SoundServer stubs a (servers a))
    (h : servers.requestFlow reach randomFail server request = some (answer, servers'))
    (hkey : key ≠ "coordinator") (hread : ∀ update ∈ request.update, update.key ≠ key)
    (a : Addr) : Solo.SameAt key (servers a) (servers' a) := by
  refine @requestFlow_keeps servers servers' reach randomFail server request answer stubs
    (fun chosen => Solo.SameAt key (servers a) (chosen a)) hsound ?_ ?_ h (.refl key _)
  · exact fun _ => election_sameAt _ _ _ hkey a
  · intro chosen handler update _ hupdate _ hchosen
    exact hchosen.trans (Solo.runPaxos_sameAt (hread update hupdate) a)

/-- The servers before a request is handled are those before it arrives, but
for an election. -/
theorem chosen_of_requestFlow (hsound : ∀ a, SoundServer stubs a (servers a))
    (h : servers.requestFlow reach randomFail server request = some (answer, servers'))
    {handler : Addr} (hby : answer.handledBy = some handler) :
    ∃ chosen, (∀ a, SoundServer stubs a (chosen a)) ∧
      (∀ key, key ≠ "coordinator" → ∀ a, Solo.SameAt key (servers a) (chosen a)) ∧
      HandledAt chosen servers' reach randomFail request answer handler := by
  obtain ⟨chosen, helected, hend⟩ := requestFlow_cases h
  refine ⟨chosen, ?_, ?_, ?_⟩
  · rcases helected with rfl | ⟨status, helected⟩
    · exact hsound
    · exact soundServer_electNewCoordinator hsound helected
  · intro key hkey a
    rcases helected with rfl | ⟨status, helected⟩
    · exact .refl key _
    · exact electNewCoordinator_sameAt hsound helected hkey a
  · rcases hend with ⟨hnone, _⟩ | ⟨handler', hhandled⟩
    · rw [hnone] at hby
      cases hby
    · obtain ⟨_, _, _, hby', _⟩ := id hhandled
      rw [hby'] at hby
      cases hby
      exact hhandled

end SameAt

/-! ## One request -/

section Request

variable {stubs : PaxosStubs} {servers servers' : Servers} {server : Addr}
  {randomFail : Message → Addr → Bool} {request : ClientRequest} {answer : Answer}
  {reached : List Addr} {key : String}

/-- A handled PUT or DELETE is a run of Paxos between the servers that an
election has left, unless it is on the reserved key. -/
theorem run_of_write (hsound : ∀ a, SoundServer stubs a (servers a))
    (h : servers.requestFlow (fun a => a ∈ reached) randomFail server request =
      some (answer, servers'))
    {update : Request} (hupdate : request.update = some update) {handler : Addr}
    (hby : answer.handledBy = some handler) :
    (request.key = "coordinator" ∧ answer.status.ok = false) ∨
      (request.key ≠ "coordinator" ∧ ∃ chosen, (∀ a, SoundServer stubs a (chosen a)) ∧
        (∀ a, Solo.SameAt request.key (servers a) (chosen a)) ∧
        answer.status.ok = (runPaxos (.within (fun a => a ∈ reached) randomFail) chosen handler
          update).1.ok ∧
        servers' = (runPaxos (.within (fun a => a ∈ reached) randomFail) chosen handler
          update).2) := by
  obtain ⟨chosen, hsound', hsame, _, handled, hhandled, _, _, hcode⟩ :=
    chosen_of_requestFlow hsound h hby
  rw [handleRequest_of_update hupdate, Prod.mk.injEq] at hhandled
  obtain ⟨rfl, hservers'⟩ := hhandled
  have hok : answer.status.ok = (chosen.update (.within (fun a => a ∈ reached) randomFail)
      handler update).1.ok := by
    rw [Status.ok, hcode, Status.ok]
  have hkey := ClientRequest.key_of_update hupdate
  rcases @update_cases chosen handler request (.within (fun a => a ∈ reached) randomFail) update
    hupdate with ⟨hreserved, hfailed, _⟩ | ⟨hclient, hrun⟩
  · exact Or.inl ⟨hkey ▸ hreserved, hok.trans hfailed⟩
  · rw [hkey] at hclient
    rw [hrun] at hok hservers'
    exact Or.inr ⟨hclient, chosen, hsound', hsame request.key hclient, hok, hservers'.symm⟩

/-- The round of that run. -/
theorem round_of_sameAt {chosen : Servers} {update : Request} {handler : Addr}
    (hkey : update.key = key) (hsame : Solo.SameAt key (servers handler) (chosen handler)) :
    Solo.round chosen handler update = (servers handler).kvDb.latestRound key + 1 := by
  rw [Solo.round, hkey, KeyValueDataBase.latestRound_congr (Finset.ext hsame.rounds)]

/-- All reached replicas are live in that run. -/
theorem mem_live_of_reached {chosen : Servers} {handler a : Addr}
    (hsound : SoundServer stubs handler (chosen handler)) (ha : a ∈ reached)
    (hlisted : a ∈ stubs.addrs) :
    a ∈ Solo.live (.within (fun a => a ∈ reached) randomFail) chosen handler := by
  refine Solo.mem_live_within.mpr ⟨?_, decide_eq_true ha⟩
  rw [PaxosStubsMap.getPaxosStubs, hsound.configured]
  exact hlisted

/-- A PUT or DELETE that was answered OK by a server that was up to date has
left its outcome at every server that could be reached. -/
theorem value_of_write (hsound : ∀ a, SoundServer stubs a (servers a))
    (hlisted : ∀ a ∈ reached, a ∈ stubs.addrs)
    (h : servers.requestFlow (fun a => a ∈ reached) randomFail server request =
      some (answer, servers'))
    {update : Request} (hupdate : request.update = some update)
    (hok : answer.status.ok = true) {handler : Addr} (hby : answer.handledBy = some handler)
    (hlatest : upToDate servers request.key reached handler = true) :
    request.key ≠ "coordinator" ∧ ∀ a ∈ reached,
      (servers' a).kvDb.getValue request.key = update.outcome := by
  have hkey := ClientRequest.key_of_update hupdate
  rcases run_of_write hsound h hupdate hby with
    ⟨_, hfailed⟩ | ⟨hclient, chosen, hsound', hsame, hstatus, rfl⟩
  · rw [hok] at hfailed
    cases hfailed
  · refine ⟨hclient, fun a ha => ?_⟩
    have hfresh : Solo.FreshRound (fun a => a ∈ reached) chosen handler update := by
      intro b _ hb r hr
      rw [hkey, (hsame b).rounds] at hr
      have hle := of_decide_eq_true hlatest b (of_decide_eq_true hb) r hr
      rw [round_of_sameAt hkey (hsame handler)]
      omega
    have hvalue := @Solo.value_of_runPaxos (fun a => a ∈ reached) randomFail chosen handler
      update hfresh a (mem_live_of_reached (hsound' handler) ha (hlisted a ha)) (hstatus ▸ hok)
    rw [← hkey, hvalue]
    exact (ClientRequest.isUpdate_of_update hupdate).effect _

/-- A GET reports the value of the server that handled it. -/
theorem value_of_read (hsound : ∀ a, SoundServer stubs a (servers a))
    (h : servers.requestFlow (fun a => a ∈ reached) randomFail server request =
      some (answer, servers'))
    (hread : request.update = none) (hkey : request.key ≠ "coordinator") {handler : Addr}
    (hby : answer.handledBy = some handler) :
    answer.value = (servers handler).kvDb.getValue request.key := by
  obtain ⟨chosen, _, hsame, hreach, handled, hhandled, _, hresponse, hcode⟩ :=
    chosen_of_requestFlow hsound h hby
  rw [handleRequest_get hread, Prod.mk.injEq] at hhandled
  obtain ⟨rfl, _⟩ := hhandled
  rw [← (hsame request.key hkey handler).value, Answer.value, Status.ok, hcode, hresponse]
  simp only [MultiPaxosServiceImpl.getValue, hkey, Bool.false_eq_true, if_false]
  cases (chosen handler).kvDb.getValue request.key with
  | none => rfl
  | some value => rfl

end Request

/-! ## All requests of a run -/

variable {stubs : PaxosStubs} {d d' : Deployment}

/-- The outcome of the last write is still where the write has left it, if the
server that handled it was up to date. -/
def Settled (d : Deployment) : Prop :=
  ∀ key, ∀ write ∈ lastWrite key d.answers, write.answer.status.ok = true →
    write.upToDate = true →
    key ≠ "coordinator" ∧ ∀ a ∈ write.reached,
      a ∈ d.running ∧ (d.servers a).kvDb.getValue key = write.outcome

/-- Nobody but the requests writes. -/
theorem Settled.of_sameAt (h : Settled d) (hanswers : d'.answers = d.answers)
    (hrunning : ∀ a ∈ d.running, a ∈ d'.running)
    (hsame : ∀ key, key ≠ "coordinator" → ∀ a ∈ d.running,
      Solo.SameAt key (d.servers a) (d'.servers a)) : Settled d' := by
  intro key write hwrite hok hlatest
  rw [hanswers] at hwrite
  obtain ⟨hkey, hvalue⟩ := h key write hwrite hok hlatest
  refine ⟨hkey, fun a ha => ?_⟩
  obtain ⟨hup, hvalue⟩ := hvalue a ha
  exact ⟨hrunning a hup, (hsame key hkey a hup).value.trans hvalue⟩

/-- A request settles the key that it writes, and leaves the others settled. -/
theorem settled_answered (h : Settled d) (hsound : Sound stubs d) {server : Addr}
    {request : ClientRequest} {reach : List Addr} {randomFail : Message → Addr → Bool}
    {answer : Answer} {servers : Servers}
    (hflow : d.servers.requestFlow (fun a => a ∈ d.reached reach) randomFail server request =
      some (answer, servers)) :
    Settled
      { d with
        servers := servers
        answers := d.answered request (d.reached reach) answer :: d.answers } := by
  intro key write hwrite hok hlatest
  have hreached : ∀ a ∈ d.reached reach, a ∈ d.running := fun a ha => (List.mem_filter.mp ha).1
  by_cases hnew : (d.answered request (d.reached reach) answer).IsWrite key
  · have heq : d.answered request (d.reached reach) answer = write := by
      rw [lastWrite, List.find?_cons_of_pos (by simpa using hnew)] at hwrite
      exact Option.some.inj hwrite
    subst heq
    obtain ⟨rfl, hsome⟩ := hnew
    obtain ⟨update, hupdate⟩ := Option.isSome_iff_exists.mp hsome
    obtain ⟨handler, hby, hlatest⟩ := (Option.any_eq_true _ _).mp hlatest
    obtain ⟨hkey, hvalue⟩ := value_of_write hsound.servers
      (fun a ha => hsound.listed a (hreached a ha)) hflow hupdate hok hby hlatest
    refine ⟨hkey, fun a ha => ⟨hreached a ha, (hvalue a ha).trans ?_⟩⟩
    exact (congrArg (Option.bind · Request.outcome) hupdate).symm
  · have hold : write ∈ lastWrite key d.answers := by
      rwa [lastWrite, List.find?_cons_of_neg (by simpa using hnew)] at hwrite
    obtain ⟨hkey, hvalue⟩ := h key write hold hok hlatest
    have hread : ∀ update ∈ request.update, update.key ≠ key := by
      intro update hupdate heq
      have hkey' := ClientRequest.key_of_update hupdate
      exact hnew ⟨hkey'.symm.trans heq, Option.isSome_iff_exists.mpr ⟨update, hupdate⟩⟩
    refine ⟨hkey, fun a ha => ⟨(hvalue a ha).1, ?_⟩⟩
    exact (requestFlow_sameAt hsound.servers hflow hkey hread a).value.trans (hvalue a ha).2

theorem settled_of_reachable (h : (deployment stubs).Reachable (Served stubs) d) :
    Settled d := by
  refine h.invariant ?_ ?_
  · rintro d rfl key write hwrite
    cases hwrite
  · intro d act d' hreach hcond hstep hd
    have hsound := sound_of_reachable hreach
    cases step_cases hstep with
    | @started server reach randomFail status servers hdown hlisted hinit hok =>
      refine hd.of_sameAt rfl (fun a => List.mem_cons_of_mem server) ?_
      intro key hkey a ha
      refine initializeServer_sameAt hsound.servers hinit hkey ?_
      rintro rfl
      exact hdown ha
    | @ended server reach randomFail status servers hdown hlisted hinit =>
      refine hd.of_sameAt rfl (fun a ha => ha) ?_
      intro key hkey a ha
      have hne : a ≠ server := by
        rintro rfl
        exact hdown ha
      have hsame := initializeServer_sameAt hsound.servers hinit hkey hne
      rwa [← Function.update_of_ne hne (freshServer stubs server) servers] at hsame
    | answered hup hflow => exact settled_answered hd hsound hflow
    | crashed hup => exact hcond.elim

/-- GETs are fresh wherever the coordinators are caught up. -/
theorem freshReads_of_reachable (h : (deployment stubs).Reachable (Served stubs) d) :
    FreshReads CaughtUp d.answers := by
  refine h.invariant (I := fun d => FreshReads CaughtUp d.answers) ?_ ?_
  · rintro d rfl
    exact trivial
  · intro d act d' hreach hcond hstep hd
    have hsound := sound_of_reachable hreach
    cases step_cases hstep with
    | started hdown hlisted hinit hok => exact hd
    | ended hdown hlisted hinit => exact hd
    | crashed hup => exact hd
    | @answered server request reach randomFail answer servers hup hflow =>
      refine ⟨?_, hd⟩
      rintro ⟨hread, _⟩ write hwrite hok ⟨hlatest, handler, hby, hamong⟩
      obtain ⟨hkey, hvalue⟩ := settled_of_reachable hreach _ write hwrite hok hlatest
      exact (value_of_read hsound.servers hflow hread hkey hby).trans (hvalue handler hamong).2

/-- The coordinator `a` writes while `c` cannot be reached.  Then `a` cannot
be reached, and a GET makes `c` the coordinator. -/
def readAtNewCoordinator : List Action :=
  startServers ++
    [.request "a" (.put "k" "x") ["a", "b"] fun _ _ => false,
      .request "c" (.get "k") ["b", "c"] fun _ _ => false]

/-- The coordinator `a` writes twice while `c` cannot be reached.  Then `c`
becomes the coordinator, and its own PUT gets round 1, in which `b` has
accepted the first value. -/
def writeAtNewCoordinator : List Action :=
  startServers ++
    [.request "a" (.put "k" "x") ["a", "b"] fun _ _ => false,
      .request "a" (.put "k" "y") ["a", "b"] fun _ _ => false,
      .request "c" (.put "k" "z") ["b", "c"] fun _ _ => false,
      .request "c" (.get "k") ["b", "c"] fun _ _ => false]

set_option maxRecDepth 10000 in
/-- Reads are not always fresh, and neither half of `CaughtUp` makes them so
alone. -/
theorem not_freshReads_newCoordinator :
    (∃ d, (deployment (.ofReplicas ["a", "b", "c"])).Reachable
        (Served (.ofReplicas ["a", "b", "c"])) d ∧
      ¬ FreshReads (fun _ _ => True) d.answers ∧
      ¬ FreshReads (fun _ write => write.upToDate = true) d.answers) ∧
    ∃ d, (deployment (.ofReplicas ["a", "b", "c"])).Reachable
        (Served (.ofReplicas ["a", "b", "c"])) d ∧
      ¬ FreshReads (fun read write => read.HandledAmong write) d.answers := by
  have hread : ∃ d ∈ (deployment (.ofReplicas ["a", "b", "c"])).execWhere
      (Served (.ofReplicas ["a", "b", "c"])) (initial (.ofReplicas ["a", "b", "c"]))
      readAtNewCoordinator,
      ¬ FreshReads (fun _ _ => True) d.answers ∧
      ¬ FreshReads (fun _ write => write.upToDate = true) d.answers := by
    decide +kernel
  have hwrite : ∃ d ∈ (deployment (.ofReplicas ["a", "b", "c"])).execWhere
      (Served (.ofReplicas ["a", "b", "c"])) (initial (.ofReplicas ["a", "b", "c"]))
      writeAtNewCoordinator,
      ¬ FreshReads (fun read write => read.HandledAmong write) d.answers := by
    decide +kernel
  exact ⟨ActionSystem.exists_reachable_of_execWhere rfl hread,
    ActionSystem.exists_reachable_of_execWhere rfl hwrite⟩

/-- The coordinator `a` writes while all can be reached.  Then `b` becomes the
coordinator, and answers a GET. -/
def readAtFollower : List Action :=
  startServers ++
    [.request "b" (.put "k" "x") ["a", "b", "c"] fun _ _ => false,
      .request "b" (.get "k") ["b", "c"] fun _ _ => false]

set_option maxRecDepth 10000 in
/-- There the write and the read meet both halves of `CaughtUp`, and the GET
reports the value. -/
theorem freshReads_readAtFollower :
    ∃ (d : Deployment) (read write : Answered), d.answers = [read, write] ∧ read.IsRead ∧
      write.IsWrite read.request.key ∧ write.answer.status.ok = true ∧ CaughtUp read write ∧
      write.outcome = some "x" ∧ read.value = some "x" ∧ FreshReads CaughtUp d.answers := by
  have hrun : ∃ d ∈ (deployment (.ofReplicas ["a", "b", "c"])).execWhere
      (Served (.ofReplicas ["a", "b", "c"])) (initial (.ofReplicas ["a", "b", "c"]))
      readAtFollower, d.answers.length = 2 ∧
      ∀ read ∈ d.answers[0]?, ∀ write ∈ d.answers[1]?, read.IsRead ∧
        write.IsWrite read.request.key ∧ write.answer.status.ok = true ∧
        (write.upToDate = true ∧ read.HandledAmong write) ∧ write.outcome = some "x" := by
    decide +kernel
  obtain ⟨d, hreach, hlength, hboth⟩ := ActionSystem.exists_reachable_of_execWhere rfl hrun
  obtain ⟨read, write, hanswers⟩ := List.length_eq_two.mp hlength
  obtain ⟨hread, hwrite, hok, hcaughtUp, houtcome⟩ :=
    hboth read (by simp [hanswers]) write (by simp [hanswers])
  have hfresh := freshReads_of_reachable hreach
  have hlast : write ∈ lastWrite read.request.key [write] := by simp [lastWrite, hwrite]
  refine ⟨d, read, write, hanswers, hread, hwrite, hok, hcaughtUp, houtcome, ?_, hfresh⟩
  rw [hanswers] at hfresh
  exact (hfresh.1 hread write hlast hok hcaughtUp).trans houtcome

end Deployment

end PaxosKVStore
