import PaxosKVStore.Lib.Entries
import PaxosKVStore.Solo

/-!
# Start-up and recovery

`Initialize` runs in three steps: ask all replicas for the coordinator,
nominate oneself if that fails, and copy the database of whoever is the
coordinator then.  The calls that it makes, besides those of the election's
`RunPaxos`, get their fates from `StartUp`.

A function returns `none` where the source would call through a null stub.

The source visits the entries of a received map in an order that is not
specified.  The model visits them by key, and `getValue_restore` shows that
the order does not matter.
-/

namespace PaxosKVStore

/-! ## The snapshot -/

/-- `RecoverResponse`. -/
structure RecoverResponse where
  kvMap : DataMap := ∅
  paxosLogs : Finmap fun _ : String => PaxosLogs := ∅

/-- `Recover` answers without a look at the context. -/
def MultiPaxosServiceImpl.recover (s : MultiPaxosServiceImpl) : RecoverResponse where
  kvMap := s.kvDb.dataMap
  paxosLogs := s.kvDb.paxosLogsMap

namespace KeyValueDataBase

/-- The first loop of `GetRecovery`. -/
def setValues (db : KeyValueDataBase) (kvMap : List (String × String)) : KeyValueDataBase :=
  kvMap.foldl (fun db kv => (db.setValue kv.1 kv.2).2) db

/-- The inner loop of the second one, for the logs of one key. -/
def addPaxosLogs (db : KeyValueDataBase) (key : String) (logs : List (Int × PaxosLog)) :
    KeyValueDataBase :=
  logs.foldl (fun db log => db.addPaxosLogRecovered key log.1 log.2) db

/-- Both loops of `GetRecovery`. -/
def restore (db : KeyValueDataBase) (response : RecoverResponse) : KeyValueDataBase :=
  (entries response.paxosLogs).foldl (fun db entry => db.addPaxosLogs entry.1 (entries entry.2))
    (db.setValues (entries response.kvMap))

section Loops

variable {db : KeyValueDataBase}

theorem getValue_addPaxosLogs (key key' : String) (logs : List (Int × PaxosLog)) :
    (db.addPaxosLogs key logs).getValue key' = db.getValue key' := by
  unfold addPaxosLogs
  induction logs generalizing db with
  | nil => rfl
  | cons log rest ih => exact ih

/-- The entries of a map overwrite the entries that are there. -/
theorem getValue_setValues {m : DataMap} {kvMap : List (String × String)}
    (hmem : ∀ kv ∈ kvMap, m.lookup kv.1 = some kv.2) (key : String) :
    (db.setValues kvMap).getValue key =
      if key ∈ kvMap.map Prod.fst then m.lookup key else db.getValue key := by
  unfold setValues
  induction kvMap generalizing db with
  | nil => rfl
  | cons kv rest ih =>
    have hhead := hmem kv List.mem_cons_self
    rw [List.foldl_cons, ih fun kv hkv => hmem kv (List.mem_cons_of_mem _ hkv),
      getValue_setValue]
    by_cases hrest : key ∈ rest.map Prod.fst
    · rw [if_pos hrest]
      exact (if_pos (List.mem_cons_of_mem _ hrest)).symm
    · rw [if_neg hrest]
      by_cases hkey : key = kv.1
      · subst hkey
        rw [if_pos rfl, ← hhead]
        exact (if_pos List.mem_cons_self).symm
      · rw [if_neg hkey, if_neg (by simp [hkey, hrest])]

/-- A recovered database holds the values of the snapshot, and keeps its own
under the keys that the snapshot does not have. -/
theorem getValue_restore (response : RecoverResponse) (key : String) :
    (db.restore response).getValue key =
      (response.kvMap.lookup key).or (db.getValue key) := by
  have hlogs : ∀ (logs : List (String × PaxosLogs)) (db : KeyValueDataBase),
      (logs.foldl (fun db entry => db.addPaxosLogs entry.1 (entries entry.2)) db).getValue key =
        db.getValue key := by
    intro logs
    induction logs with
    | nil => exact fun db => rfl
    | cons entry rest ih =>
      intro db
      rw [List.foldl_cons, ih, getValue_addPaxosLogs]
  rw [restore, hlogs, getValue_setValues (m := response.kvMap) fun kv => mem_entries.mp]
  split
  · rename_i hmem
    obtain ⟨⟨key', value⟩, hentry, rfl⟩ := List.mem_map.mp hmem
    rw [mem_entries.mp hentry]
    rfl
  · rename_i hmem
    cases hlookup : response.kvMap.lookup key with
    | none => rfl
    | some value =>
      exact absurd (List.mem_map.mpr ⟨(key, value), mem_entries.mpr hlookup, rfl⟩) hmem

end Loops

/-- Every log and every logged round of `db'` is one of `db` or of `source`. -/
structure LogsFrom (source db db' : KeyValueDataBase) : Prop where
  log : ∀ key r, db'.paxosLog key r = db.paxosLog key r ∨
    db'.paxosLog key r = source.paxosLog key r
  rounds : ∀ key r, r ∈ db'.rounds key → r ∈ db.rounds key ∨ r ∈ source.rounds key

variable {source db db' db'' : KeyValueDataBase}

theorem LogsFrom.refl (source db : KeyValueDataBase) : LogsFrom source db db :=
  ⟨fun _ _ => Or.inl rfl, fun _ _ => Or.inl⟩

theorem LogsFrom.trans (h : LogsFrom source db db') (h' : LogsFrom source db' db'') :
    LogsFrom source db db'' := by
  constructor
  · intro key r
    rcases h'.log key r with heq | heq
    · rw [heq]
      exact h.log key r
    · exact Or.inr heq
  · intro key r hr
    rcases h'.rounds key r hr with hr | hr
    · exact h.rounds key r hr
    · exact Or.inr hr

/-- A loop keeps what every turn of it keeps. -/
theorem LogsFrom.foldl {α : Type} {f : KeyValueDataBase → α → KeyValueDataBase} {l : List α}
    (h : ∀ a ∈ l, ∀ db, LogsFrom source db (f db a)) (db : KeyValueDataBase) :
    LogsFrom source db (l.foldl f db) := by
  induction l generalizing db with
  | nil => exact .refl source db
  | cons a rest ih =>
    rw [List.foldl_cons]
    exact (h a List.mem_cons_self db).trans
      (ih (fun a ha => h a (List.mem_cons_of_mem _ ha)) (f db a))

/-- Adding a log of `source`. -/
theorem logsFrom_addPaxosLogRecovered {key : String} {r : Int} {log : PaxosLog}
    (h : (source.logsOf key).lookup r = some log) (db : KeyValueDataBase) :
    LogsFrom source db (db.addPaxosLogRecovered key r log) := by
  constructor
  · intro key' r'
    rw [addPaxosLogRecovered, paxosLog_updateLog]
    split
    · rename_i hat
      refine Or.inr ?_
      rw [hat.1, hat.2, paxosLog, h]
      rfl
    · exact Or.inl rfl
  · intro key' r' hr
    rw [addPaxosLogRecovered, mem_rounds_updateLog] at hr
    rcases hr with ⟨rfl, rfl⟩ | hr
    · refine Or.inr ?_
      rw [KeyValueDataBase.rounds, Finmap.mem_keys, Finmap.mem_iff]
      exact ⟨log, h⟩
    · exact Or.inl hr

/-- The logs of a recovered database come from the two databases. -/
theorem logsFrom_restore (db : KeyValueDataBase) (s : MultiPaxosServiceImpl) :
    LogsFrom s.kvDb db (db.restore s.recover) := by
  have hvalues : LogsFrom s.kvDb db (db.setValues (entries s.recover.kvMap)) :=
    LogsFrom.foldl (f := fun db (kv : String × String) => (db.setValue kv.1 kv.2).2)
      (fun kv _ db => ⟨fun _ _ => Or.inl rfl, fun _ _ => Or.inl⟩) db
  refine hvalues.trans (LogsFrom.foldl (fun entry hentry db => ?_) _)
  refine LogsFrom.foldl (fun log hlog db => logsFrom_addPaxosLogRecovered ?_ db) db
  have hlogs : s.kvDb.paxosLogsMap.lookup entry.1 = some entry.2 := mem_entries.mp hentry
  rw [logsOf, hlogs]
  exact mem_entries.mp hlog

end KeyValueDataBase

/-! ## The start-up of a server -/

/-- What becomes of the calls of a server that starts: the `GetCoordinator`
calls of its discovery, the `ElectCoordinator` call to itself, the calls of
that election, and the `Recover` call. -/
structure StartUp where
  discovery : Addr → Fate
  election : Addr → Fate
  outcomes : Outcomes
  recovery : Addr → Fate

/-- The calls to `reach` are delivered, and the others fail without effect. -/
def StartUp.within (reach : Addr → Bool) (randomFail : Message → Addr → Bool) : StartUp where
  discovery addr := if reach addr then .delivered else .lost
  election addr := if reach addr then .delivered else .lost
  outcomes := .within reach randomFail
  recovery addr := if reach addr then .delivered else .lost

/-- The status of a call whose receiver was not reached. -/
def unavailable : Status := { code := .unavailable }

/-- The status of a call whose answer did not arrive in time. -/
def deadlineExceeded : Status := { code := .deadlineExceeded }

/-- What the discovery loop has found: the names of coordinators, and the
replicas that answered. -/
structure Discovered where
  coordinators : List Addr := []
  livePaxosStubs : List Addr := []

/-- The body of the discovery loop. -/
def Discovered.ask (e : StartUp) (servers : Servers) (found : Discovered) (addr : Addr) :
    Discovered :=
  match e.discovery addr with
  | .delivered =>
      let (status, response) := (servers addr).getCoordinator {}
      if status.ok then
        { coordinators :=
            if response.coordinator = "" then found.coordinators
            else found.coordinators.insert response.coordinator
          livePaxosStubs := found.livePaxosStubs ++ [addr] }
      else found
  | .lost => found
  | .replyLost => found

namespace Servers

/-- `GetCoordinator`, the discovery. -/
def getCoordinator (servers : Servers) (e : StartUp) (server : Addr) : Status × Servers :=
  let service := servers server
  let found := service.paxosStubsMap.getPaxosStubs.foldl (Discovered.ask e servers) {}
  match found.coordinators with
  | [coordinator] =>
      if coordinator ∉ found.livePaxosStubs then
        ({ code := .aborted, message := "Coordinator is unavailable." }, servers)
      else
        (Status.OK,
          Function.update servers server
            { service with
              paxosStubsMap := (service.paxosStubsMap.setCoordinator coordinator).2 })
  | _ => ({ code := .aborted, message := "Failed to get Coordinator addresses." }, servers)

/-- `ElectNewCoordinator`: the server nominates itself, in a call to itself. -/
def electNewCoordinator (servers : Servers) (e : StartUp) (server : Addr) :
    Option (Status × Servers) :=
  let service := servers server
  match service.paxosStubsMap.getStub service.myPaxosAddress with
  | none => none
  | some myPaxosStub =>
      let request := Request.electCoordinator "coordinator" service.myPaxosAddress
      let (status, servers') := runPaxos e.outcomes servers myPaxosStub request
      match e.election myPaxosStub with
      | .delivered => some (status, servers')
      | .lost => some (unavailable, servers)
      | .replyLost => some (deadlineExceeded, servers')

/-- `GetRecovery`. -/
def getRecovery (servers : Servers) (e : StartUp) (server : Addr) : Option (Status × Servers) :=
  let service := servers server
  match service.paxosStubsMap.getCoordinatorStub with
  | none => none
  | some coordinator =>
      match e.recovery coordinator with
      | .delivered =>
          some (Status.OK,
            Function.update servers server
              { service with kvDb := service.kvDb.restore (servers coordinator).recover })
      | _ =>
          some ({ code := .aborted, message := "Failed to get Recovery from Coordinator." },
            servers)

/-- `Initialize`. -/
def initializeServer (servers : Servers) (e : StartUp) (server : Addr) :
    Option (Status × Servers) :=
  let (getStatus, servers) := servers.getCoordinator e server
  let elected :=
    if getStatus.ok then some (Status.OK, servers)
    else servers.electNewCoordinator e server
  match elected with
  | none => none
  | some (electStatus, servers) =>
      if electStatus.ok then
        match servers.getRecovery e server with
        | none => none
        | some (recoverStatus, servers) =>
            if recoverStatus.ok then some (Status.OK, servers)
            else
              some ({ code := .aborted,
                      message := "GetRecovery Failed: " ++ recoverStatus.message }, servers)
      else
        some ({ code := .aborted,
                message := "ElectNewCoordinator Failed: " ++ electStatus.message }, servers)

end Servers

/-! ## What the discovery finds -/

section Discovery

variable (e : StartUp) (servers : Servers)

/-- The replica answers the `GetCoordinator` call with OK. -/
def Answers (a : Addr) : Prop :=
  e.discovery a = .delivered ∧ (servers a).paxosStubsMap.coordinator ≠ ""

/-- All replicas that answer name `coordinator`, which is one of them. -/
structure Agreed (server coordinator : Addr) : Prop where
  mem : coordinator ∈ (servers server).paxosStubsMap.getPaxosStubs
  answers : Answers e servers coordinator
  names : ∀ a ∈ (servers server).paxosStubsMap.getPaxosStubs, Answers e servers a →
    (servers a).paxosStubsMap.coordinator = coordinator

theorem ask_of_answers {a : Addr} (h : Answers e servers a) (found : Discovered) :
    found.ask e servers a =
      { coordinators := found.coordinators.insert (servers a).paxosStubsMap.coordinator
        livePaxosStubs := found.livePaxosStubs ++ [a] } := by
  obtain ⟨hfate, hne⟩ := h
  simp [Discovered.ask, hfate, hne, MultiPaxosServiceImpl.getCoordinator,
    PaxosStubsMap.getCoordinator]

theorem ask_of_not_answers {a : Addr} (h : ¬ Answers e servers a) (found : Discovered) :
    found.ask e servers a = found := by
  unfold Discovered.ask
  cases hfate : e.discovery a with
  | delivered =>
    have hempty : (servers a).paxosStubsMap.coordinator = "" := by
      by_contra hne
      exact h ⟨hfate, hne⟩
    simp [hempty, MultiPaxosServiceImpl.getCoordinator, PaxosStubsMap.getCoordinator]
  | lost => rfl
  | replyLost => rfl

/-- The loop finds the replicas that answer and the names that they give. -/
theorem foldl_ask (stubs : List Addr) (found : Discovered) (hnodup : found.coordinators.Nodup) :
    (stubs.foldl (Discovered.ask e servers) found).coordinators.Nodup ∧
      (∀ c, c ∈ (stubs.foldl (Discovered.ask e servers) found).coordinators ↔
        c ∈ found.coordinators ∨
          ∃ a ∈ stubs, Answers e servers a ∧ (servers a).paxosStubsMap.coordinator = c) ∧
      ∀ a, a ∈ (stubs.foldl (Discovered.ask e servers) found).livePaxosStubs ↔
        a ∈ found.livePaxosStubs ∨ (a ∈ stubs ∧ Answers e servers a) := by
  induction stubs generalizing found with
  | nil => simp [hnodup]
  | cons head rest ih =>
    rw [List.foldl_cons]
    by_cases hanswers : Answers e servers head
    · rw [ask_of_answers e servers hanswers]
      obtain ⟨hnodup', hnames, hlive⟩ := ih
        { coordinators := found.coordinators.insert (servers head).paxosStubsMap.coordinator
          livePaxosStubs := found.livePaxosStubs ++ [head] } hnodup.insert
      refine ⟨hnodup', fun c => ?_, fun a => ?_⟩
      · rw [hnames, List.mem_insert_iff, List.exists_mem_cons_iff, eq_comm]
        tauto
      · rw [hlive, List.mem_append, List.mem_singleton, List.mem_cons]
        constructor
        · rintro ((h | rfl) | h)
          · exact Or.inl h
          · exact Or.inr ⟨Or.inl rfl, hanswers⟩
          · exact Or.inr ⟨Or.inr h.1, h.2⟩
        · rintro (h | ⟨rfl | h, ha⟩)
          · exact Or.inl (Or.inl h)
          · exact Or.inl (Or.inr rfl)
          · exact Or.inr ⟨h, ha⟩
    · rw [ask_of_not_answers e servers hanswers]
      obtain ⟨hnodup', hnames, hlive⟩ := ih found hnodup
      refine ⟨hnodup', fun c => ?_, fun a => ?_⟩
      · rw [hnames, List.exists_mem_cons_iff]
        tauto
      · rw [hlive, List.mem_cons]
        constructor
        · rintro (h | h)
          · exact Or.inl h
          · exact Or.inr ⟨Or.inr h.1, h.2⟩
        · rintro (h | ⟨rfl | h, ha⟩)
          · exact Or.inl h
          · exact absurd ha hanswers
          · exact Or.inr ⟨h, ha⟩

/-- The servers after `server` has set its coordinator. -/
def Servers.follow (servers : Servers) (server coordinator : Addr) : Servers :=
  Function.update servers server
    { servers server with
      paxosStubsMap := ((servers server).paxosStubsMap.setCoordinator coordinator).2 }

@[simp] theorem kvDb_follow (server coordinator a : Addr) :
    (servers.follow server coordinator a).kvDb = (servers a).kvDb := by
  by_cases ha : a = server
  · subst ha
    rw [Servers.follow, Function.update_self]
  · rw [Servers.follow, Function.update_of_ne ha]

/-- The discovery succeeds if and only if the replicas agree on one that
answers. -/
theorem getCoordinator_cases (server : Addr) :
    (∃ coordinator, Agreed e servers server coordinator ∧
      servers.getCoordinator e server = (Status.OK, servers.follow server coordinator)) ∨
    ((∀ coordinator, ¬ Agreed e servers server coordinator) ∧
      ∃ message, servers.getCoordinator e server =
        ({ code := .aborted, message := message }, servers)) := by
  obtain ⟨hnodup, hnames, hlive⟩ :=
    foldl_ask e servers (servers server).paxosStubsMap.getPaxosStubs {} .nil
  simp only [Servers.getCoordinator]
  generalize (servers server).paxosStubsMap.getPaxosStubs.foldl (Discovered.ask e servers) {} =
    found at hnodup hnames hlive
  obtain ⟨coordinators, livePaxosStubs⟩ := found
  simp only [List.not_mem_nil, false_or] at hnodup hnames hlive
  -- a name on which all agree is on both lists, and alone on the first
  have hagreed : ∀ c, Agreed e servers server c →
      c ∈ coordinators ∧ c ∈ livePaxosStubs ∧ ∀ d ∈ coordinators, d = c := by
    intro c h
    refine ⟨(hnames c).mpr ⟨c, h.mem, h.answers, h.names c h.mem h.answers⟩,
      (hlive c).mpr ⟨h.mem, h.answers⟩, fun d hd => ?_⟩
    obtain ⟨a, ha, hanswers, rfl⟩ := (hnames d).mp hd
    exact h.names a ha hanswers
  match coordinators with
  | [] =>
    refine Or.inr ⟨fun c h => ?_, _, rfl⟩
    cases (hagreed c h).1
  | [c] =>
    by_cases hmem : c ∈ livePaxosStubs
    · refine Or.inl ⟨c, ?_, if_neg (not_not_intro hmem)⟩
      obtain ⟨hstub, hanswers⟩ := (hlive c).mp hmem
      refine ⟨hstub, hanswers, fun a ha hanswers' => ?_⟩
      exact List.mem_singleton.mp ((hnames _).mpr ⟨a, ha, hanswers', rfl⟩)
    · refine Or.inr ⟨fun d h => ?_, _, if_pos hmem⟩
      obtain ⟨_, hlive', hsame⟩ := hagreed d h
      rw [← hsame c List.mem_cons_self] at hlive'
      exact hmem hlive'
  | c :: d :: rest =>
    refine Or.inr ⟨fun c' h => ?_, _, rfl⟩
    obtain ⟨_, _, hsame⟩ := hagreed c' h
    have hcd : c = d := (hsame c (by simp)).trans (hsame d (by simp)).symm
    simp [hcd] at hnodup

end Discovery

end PaxosKVStore
