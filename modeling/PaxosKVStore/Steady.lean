import PaxosKVStore.FaultTolerance

/-!
# A coordinator that stays up

The server `C` starts first, and from then on it is up and can be reached.
All the others may go down and come back, may not be reached, and may fail
calls at random.  Then nobody ever runs another election: a server that starts
finds `C`, and copies it.

Unlike in a group whose members mirror one another, a server here may miss
rounds that it could not be reached for.  `C` has logged them all, and its
entries are those of the atomic map.
-/

namespace PaxosKVStore

open Linearizability
open Reference (peers Elected Updated)

namespace Deployment

/-- `C` is the first server, and it can always be reached. -/
def SteadyAt (C : Addr) (d : Deployment) : Action → Prop
  | .start server reach _ => if d.running = [] then server = C else C ∈ reach
  | .request _ _ reach _ => C ∈ reach
  | .crash server => server ≠ C

instance (C : Addr) (d : Deployment) (act : Action) : Decidable (d.SteadyAt C act) :=
  match act with
  | .start server reach _ =>
      inferInstanceAs (Decidable (if d.running = [] then server = C else C ∈ reach))
  | .request _ _ reach _ => inferInstanceAs (Decidable (C ∈ reach))
  | .crash server => inferInstanceAs (Decidable (server ≠ C))

/-- `C` is up, all servers follow it, and it holds the entries of the map.  It
has handled all requests, and whoever started after it has copied it. -/
structure LedBy (C : Addr) (d : Deployment) (map : AtomicMap) : Prop where
  up : C ∈ d.running
  followed : ∀ a ∈ d.running, (d.servers a).paxosStubsMap.coordinator = C
  value : ∀ key, key ≠ "coordinator" → (d.servers C).kvDb.getValue key = map key
  rounds : ∀ a ∈ d.running, ∀ key, ∀ r ∈ (d.servers a).kvDb.rounds key,
    r ∈ (d.servers C).kvDb.rounds key
  runs : Runs store (d.answers.map Answered.performed) map
  handled : ∀ x ∈ d.answers, x.answer.handledBy = some C
  copied : ∀ r ∈ d.starts, r.server ≠ C →
    (r.after r.server).kvDb.dataMap = (r.before C).kvDb.dataMap

/-- Nothing has happened yet. -/
structure Idle (d : Deployment) : Prop where
  running : d.running = []
  answers : d.answers = []
  starts : d.starts = []

variable {stubs : PaxosStubs} {d d' : Deployment} {C server : Addr} {map : AtomicMap}
  {reach : List Addr} {randomFail : Message → Addr → Bool}

/-- What the servers that are up hold is all that matters. -/
theorem LedBy.congr (h : LedBy C d map) (hup : C ∈ d'.running)
    (hsame : ∀ a ∈ d'.running, a ∈ d.running ∧ d'.servers a = d.servers a)
    (hanswers : d'.answers = d.answers) (hstarts : d'.starts = d.starts) : LedBy C d' map where
  up := hup
  followed a ha := by
    rw [(hsame a ha).2]
    exact h.followed a (hsame a ha).1
  value key hkey := by
    rw [(hsame C hup).2]
    exact h.value key hkey
  rounds a ha := by
    rw [(hsame a ha).2, (hsame C hup).2]
    exact h.rounds a (hsame a ha).1
  runs := by
    rw [hanswers]
    exact h.runs
  handled := hanswers ▸ h.handled
  copied := hstarts ▸ h.copied

/-- The first server elects itself. -/
theorem ledBy_first (hne : C ≠ "") (hsound : Sound stubs d) (hidle : Idle d)
    (hlisted : C ∈ stubs.addrs) {status : Status} {servers : Servers}
    (hinit : d.servers.initializeServer (.within (fun a => a ∈ C :: d.reached reach) randomFail)
      C = some (status, servers)) :
    status.ok = true ∧ LedBy C
      { d with
        servers := servers
        running := C :: d.running
        starts := { server := C, running := d.running, before := d.servers, after := servers } ::
          d.starts } .initial := by
  have hreached : d.reached reach = [] := by
    rw [reached, hidle.running]
    rfl
  have hdown : C ∉ d.running := hidle.running ▸ List.not_mem_nil
  have hfresh := hsound.fresh C hdown
  rw [hreached] at hinit
  have hself : C ∈ peers stubs (fun a => a ∈ [C]) :=
    Reference.mem_peers.mpr ⟨hlisted, by simp⟩
  have halone : Mirrored d.servers [C] .initial := by
    refine ⟨fun a ha key hkey => ?_, fun a ha b hb key => ?_⟩
    · rw [List.mem_singleton.mp ha, hfresh]
      exact (KeyValueDataBase.getValue_empty key).trans (if_neg hkey).symm
    · rw [List.mem_singleton.mp ha, List.mem_singleton.mp hb]
  obtain ⟨c, chosen, hchooses, hcoordinator, _, hok, rfl⟩ :=
    initializeServer_within hsound.servers hne hself hinit
  obtain rfl : c = C := by
    cases hchooses with
    | found hagreed =>
      exact List.mem_singleton.mp (of_decide_eq_true (reach_of_answers hagreed.answers))
    | elected hnone helected =>
      exact halone.winner_eq (List.mem_singleton_self C) fun a ha =>
        of_decide_eq_true (Reference.mem_peers.mp ha).2
  have hup : (decide (c ∈ [c])) = true := by simp
  refine ⟨hok.trans hup, ?_⟩
  simp only [hup, if_true, hidle.running]
  have hcopied : ∀ key, (chosen.recoveredFrom c c c).kvDb.getValue key = none := by
    intro key
    have hnone := (Mirrored.fresh_of_chooses hfresh hchooses key).1
    rw [Servers.kvDb_recoveredFrom, KeyValueDataBase.getValue_restore, hnone, Option.or_none]
    exact hnone
  refine ⟨List.mem_singleton_self c, fun a ha => ?_, fun key hkey => ?_, fun a ha key r hr => ?_,
    ?_, ?_, ?_⟩
  · rw [List.mem_singleton.mp ha, Servers.coordinator_recoveredFrom]
    exact hcoordinator
  · exact (hcopied key).trans (if_neg hkey).symm
  · rwa [List.mem_singleton.mp ha] at hr
  · rw [hidle.answers]
    exact .nil
  · rw [hidle.answers]
    exact fun x hx => absurd hx List.not_mem_nil
  · rw [hidle.starts]
    exact List.forall_mem_singleton.mpr fun hne => absurd rfl hne

/-- Another server finds `C` and copies it. -/
theorem chooses_of_ledBy (hempty : "" ∉ stubs.addrs) (hsound : Sound stubs d) (h : LedBy C d map)
    (hreach : C ∈ reach) (hdown : server ∉ d.running) (hlisted : server ∈ stubs.addrs)
    {status : Status} {servers : Servers}
    (hinit : d.servers.initializeServer
      (.within (fun a => a ∈ server :: d.reached reach) randomFail) server =
        some (status, servers)) :
    status.ok = true ∧ servers = (d.servers.follow server C).recoveredFrom server C ∧
      (d.servers.follow server C server).paxosStubsMap.coordinator = C := by
  have hreached : C ∈ d.reached reach := List.mem_filter.mpr ⟨h.up, decide_eq_true hreach⟩
  have hagreed := agreed_of_named hempty hsound hdown
    (fun a ha => (List.mem_filter.mp ha).1) hreached h.followed randomFail
  have hself : server ∈ peers stubs (fun a => a ∈ server :: d.reached reach) :=
    Reference.mem_peers.mpr ⟨hlisted, by simp⟩
  obtain ⟨c, chosen, hchooses, _, _, hok, rfl⟩ := initializeServer_within hsound.servers
    (fun heq => hempty (heq ▸ hlisted)) hself hinit
  cases hchooses with
  | found hagreed' =>
    obtain rfl := hagreed.unique hagreed'
    have hup : decide (C ∈ server :: d.reached reach) = true := by simp [hreached]
    exact ⟨hok.trans hup, if_pos hup, coordinator_follow hagreed⟩
  | elected hnone helected => exact absurd hagreed (hnone C)

/-- The servers that are up do not notice. -/
theorem unchanged_of_started (hempty : "" ∉ stubs.addrs) (hsound : Sound stubs d)
    (h : LedBy C d map) (hreach : C ∈ reach) (hdown : server ∉ d.running)
    (hlisted : server ∈ stubs.addrs) {status : Status} {servers : Servers}
    (hinit : d.servers.initializeServer
      (.within (fun a => a ∈ server :: d.reached reach) randomFail) server =
        some (status, servers)) : ∀ a ∈ d.running, servers a = d.servers a := by
  intro a ha
  obtain ⟨_, rfl, _⟩ := chooses_of_ledBy hempty hsound h hreach hdown hlisted hinit
  have hne : a ≠ server := by
    rintro rfl
    exact hdown ha
  rw [Servers.recoveredFrom_of_ne hne]
  exact Function.update_of_ne hne ..

/-- The server that started holds what `C` holds. -/
theorem ledBy_started (hempty : "" ∉ stubs.addrs) (hsound : Sound stubs d) (h : LedBy C d map)
    (hreach : C ∈ reach) (hdown : server ∉ d.running) (hlisted : server ∈ stubs.addrs)
    {status : Status} {servers : Servers}
    (hinit : d.servers.initializeServer
      (.within (fun a => a ∈ server :: d.reached reach) randomFail) server =
        some (status, servers)) :
    LedBy C
      { d with
        servers := servers
        running := server :: d.running
        starts := { server, running := d.running, before := d.servers, after := servers } ::
          d.starts } map := by
  obtain ⟨_, hservers, hfollows⟩ := chooses_of_ledBy hempty hsound h hreach hdown hlisted hinit
  have hfresh := hsound.fresh server hdown
  have hne : ∀ a ∈ d.running, a ≠ server := by
    rintro a ha rfl
    exact hdown ha
  have hothers := unchanged_of_started hempty hsound h hreach hdown hlisted hinit
  have hself : (servers server).kvDb =
      (d.servers server).kvDb.restore (d.servers C).recover := by
    have hsource : d.servers.follow server C C = d.servers C :=
      Function.update_of_ne (hne C h.up) ..
    rw [hservers, Servers.kvDb_recoveredFrom, kvDb_follow, hsource]
  refine ⟨List.mem_cons_of_mem _ h.up, ?_, fun key hkey => ?_, ?_, h.runs, h.handled, ?_⟩
  · refine List.forall_mem_cons.mpr ⟨?_, fun a ha => ?_⟩
    · show (servers server).paxosStubsMap.coordinator = C
      rw [hservers, Servers.coordinator_recoveredFrom]
      exact hfollows
    · show (servers a).paxosStubsMap.coordinator = C
      rw [hothers a ha]
      exact h.followed a ha
  · show (servers C).kvDb.getValue key = map key
    rw [hothers C h.up]
    exact h.value key hkey
  · show ∀ a ∈ server :: d.running, ∀ key, ∀ r ∈ (servers a).kvDb.rounds key,
      r ∈ (servers C).kvDb.rounds key
    rw [hothers C h.up]
    refine List.forall_mem_cons.mpr ⟨fun key r hr => ?_, fun a ha => ?_⟩
    · rw [hself, hfresh, KeyValueDataBase.mem_rounds_restore] at hr
      exact hr.resolve_right (by simp [freshServer])
    · rw [hothers a ha]
      exact h.rounds a ha
  · refine List.forall_mem_cons.mpr ⟨fun _ => KeyValueDataBase.dataMap_ext fun key => ?_, h.copied⟩
    show (servers server).kvDb.getValue key = (d.servers C).kvDb.getValue key
    rw [hself, hfresh, KeyValueDataBase.getValue_restore]
    exact Option.or_none

/-- `C` can call itself. -/
theorem LedBy.peer (h : LedBy C d map) (hsound : Sound stubs d) (hreach : C ∈ reach) :
    C ∈ peers stubs (fun a => a ∈ d.reached reach) :=
  Reference.mem_peers.mpr ⟨hsound.listed C h.up,
    decide_eq_true (List.mem_filter.mpr ⟨h.up, decide_eq_true hreach⟩)⟩

/-- `C` has logged every round that its peers have. -/
theorem LedBy.fresh (h : LedBy C d map) :
    ∀ a ∈ peers stubs (fun a => a ∈ d.reached reach), ∀ key,
      ∀ r ∈ (d.servers a).kvDb.rounds key, r ≤ (d.servers C).kvDb.latestRound key := by
  intro a ha key r hr
  have ha' := of_decide_eq_true (Reference.mem_peers.mp ha).2
  exact KeyValueDataBase.le_latestRound (h.rounds a (List.mem_filter.mp ha').1 key r hr)

/-- `C` handles every request. -/
theorem LedBy.handles (h : LedBy C d map) (hsound : Sound stubs d) (hreach : C ∈ reach)
    {request : ClientRequest} {answer : Answer} {servers : Servers} (hup : server ∈ d.running)
    (hflow : d.servers.requestFlow (fun a => a ∈ d.reached reach) randomFail server request =
      some (answer, servers)) :
    d.servers.handleRequest (.within (fun a => a ∈ d.reached reach) randomFail) C request =
      (answer, servers) := by
  have hreached : decide (C ∈ d.reached reach) = true :=
    (Reference.mem_peers.mp (h.peer hsound hreach)).2
  have hcoordinator := h.followed server hup
  have hstub := coordinatorStub_of_listed (hsound.servers server)
    (hcoordinator ▸ hsound.listed C h.up)
  rw [hcoordinator] at hstub
  rwa [requestFlow_of_reached hstub hreached, Option.some.injEq] at hflow

/-- A request takes the map to the next one. -/
theorem ledBy_answered (hsound : Sound stubs d) (h : LedBy C d map) (hreach : C ∈ reach)
    {request : ClientRequest} {answer : Answer} {servers : Servers} (hup : server ∈ d.running)
    (hflow : d.servers.requestFlow (fun a => a ∈ d.reached reach) randomFail server request =
      some (answer, servers)) :
    ∃ map', LedBy C
      { d with
        servers := servers
        answers := d.answered request (d.reached reach) answer :: d.answers } map' := by
  have hhandles := h.handles hsound hreach hup hflow
  have hpeer := h.peer hsound hreach
  have hby : answer.handledBy = some C := handledBy_handleRequest hhandles
  have hhandled : ∀ x ∈ d.answered request (d.reached reach) answer :: d.answers,
      x.answer.handledBy = some C := List.forall_mem_cons.mpr ⟨hby, h.handled⟩
  rcases handled_cases hsound.servers hpeer (fun key hkey => (h.value key hkey).symm) h.fresh
    ⟨(Reference.mem_peers.mp hpeer).2, answer, hhandles, hby, rfl, rfl⟩ with
    ⟨hallows, rfl⟩ | ⟨update, ok, hallows, hupdated⟩
  · exact ⟨map, h.up, h.followed, h.value, h.rounds, .cons h.runs hallows, hhandled, h.copied⟩
  · refine ⟨_, h.up, fun a ha => ?_, fun key hkey => ?_, fun a ha key r hr => ?_,
      .cons h.runs hallows, hhandled, h.copied⟩
    · exact (hupdated.coordinator a).trans (h.followed a ha)
    · exact hupdated.entry hpeer (h.value key hkey)
    · rcases (hupdated.rounds a key r).mp hr with ⟨_, hkey, hround⟩ | hr
      · exact (hupdated.rounds C key r).mpr (Or.inl ⟨hpeer, hkey, hround⟩)
      · exact (hupdated.rounds C key r).mpr (Or.inr (h.rounds a ha key r hr))

/-! ## Runs -/

/-- Until `C` starts, nothing happens. -/
theorem idle_step {act : Action} (hempty : "" ∉ stubs.addrs) (hsound : Sound stubs d)
    (hcond : d.SteadyAt C act) (h : d.Idle) (hstep : StepCases stubs d act d') :
    d'.Idle ∨ LedBy C d' .initial ∧ d'.answers = [] := by
  cases hstep with
  | @started server reach randomFail status servers hdown hlisted hinit hok =>
    obtain rfl : server = C := by
      rwa [SteadyAt, if_pos h.running] at hcond
    exact Or.inr ⟨(ledBy_first (fun heq => hempty (heq ▸ hlisted)) hsound h hlisted hinit).2,
      h.answers⟩
  | @ended server reach randomFail status servers hdown hlisted hinit =>
    exact Or.inl ⟨h.running, h.answers, h.starts⟩
  | @answered server request reach randomFail answer servers hup hflow =>
    rw [h.running] at hup
    cases hup
  | @crashed server hup =>
    rw [h.running] at hup
    cases hup

/-- After that only the requests change the map. -/
theorem LedBy.step {act : Action} (hempty : "" ∉ stubs.addrs) (hsound : Sound stubs d)
    (hcond : d.SteadyAt C act) (h : LedBy C d map) (hstep : StepCases stubs d act d') :
    (LedBy C d' map ∧ d'.answers = d.answers) ∨
      (∃ server request reach randomFail, act = .request server request reach randomFail) ∧
        ∃ map', LedBy C d' map' := by
  cases hstep with
  | @started server reach randomFail status servers hdown hlisted hinit hok =>
    rw [SteadyAt, if_neg (List.ne_nil_of_mem h.up)] at hcond
    exact Or.inl ⟨ledBy_started hempty hsound h hcond hdown hlisted hinit, rfl⟩
  | @ended server reach randomFail status servers hdown hlisted hinit =>
    rw [SteadyAt, if_neg (List.ne_nil_of_mem h.up)] at hcond
    have hothers := unchanged_of_started hempty hsound h hcond hdown hlisted hinit
    refine Or.inl ⟨h.congr h.up (fun a ha => ⟨ha, ?_⟩) rfl rfl, rfl⟩
    refine (Function.update_of_ne ?_ ..).trans (hothers a ha)
    rintro rfl
    exact hdown ha
  | @answered server request reach randomFail answer servers hup hflow =>
    exact Or.inr ⟨⟨server, request, reach, randomFail, rfl⟩,
      ledBy_answered hsound h hcond hup hflow⟩
  | @crashed server hup =>
    have hne : C ≠ server := fun heq => hcond heq.symm
    refine Or.inl ⟨h.congr (List.mem_filter.mpr ⟨h.up, by simpa using hne⟩)
      (fun a ha => ?_) rfl rfl, rfl⟩
    obtain ⟨ha, hother⟩ := List.mem_filter.mp ha
    exact ⟨ha, Function.update_of_ne (by simpa using hother) ..⟩

/-- Whatever happens to the other servers, `C` leads all that are up, holds
the entries of the atomic map and answers by them. -/
theorem ledBy_of_reachable (hempty : "" ∉ stubs.addrs)
    (h : (deployment stubs).Reachable (SteadyAt C) d) : d.Idle ∨ ∃ map, LedBy C d map := by
  refine h.invariant (I := fun d => d.Idle ∨ ∃ map, LedBy C d map) ?_ ?_
  · rintro d rfl
    exact Or.inl ⟨rfl, rfl, rfl⟩
  · intro d act d' hreach hcond hstep hd
    have hsound := sound_of_reachable hreach
    rcases hd with hidle | ⟨map, h⟩
    · exact (idle_step hempty hsound hcond hidle (step_cases hstep)).imp_right
        fun h => ⟨_, h.1⟩
    · rcases h.step hempty hsound hcond (step_cases hstep) with ⟨h, _⟩ | ⟨_, h⟩
      · exact Or.inr ⟨map, h⟩
      · exact Or.inr h

/-- `b` misses an update and is restarted, and `c` is lost while random
failures refuse another one. -/
def restartFollower : List Action :=
  startServers ++
    [.request "c" (.put "k" "x") ["a", "c"] fun _ _ => false, .crash "b",
      .start "b" ["a"] fun _ _ => false, .request "b" (.put "k" "y") ["a", "c"] fun _ _ => true,
      .crash "c", .request "b" (.get "k") ["a"] fun _ _ => false]

set_option maxRecDepth 10000 in
/-- The restarted server has the update that it had missed. -/
theorem ledBy_restartFollower :
    ∃ d : Deployment, d.running = ["b", "a"] ∧ (d.servers "b").kvDb.getValue "k" = some "x" ∧
      (d.Idle ∨ ∃ map, LedBy "a" d map) := by
  have hrun : ∃ d ∈ (deployment (.ofReplicas ["a", "b", "c"])).execWhere (SteadyAt "a")
      (initial (.ofReplicas ["a", "b", "c"])) restartFollower,
      d.running = ["b", "a"] ∧ (d.servers "b").kvDb.getValue "k" = some "x" := by
    decide +kernel
  obtain ⟨d, hreach, hrunning, hvalue⟩ := ActionSystem.exists_reachable_of_execWhere rfl hrun
  exact ⟨d, hrunning, hvalue, ledBy_of_reachable (by decide) hreach⟩

end Deployment

end PaxosKVStore
