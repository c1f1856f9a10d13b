import PaxosKVStore.Alike
import PaxosKVStore.Recovery

/-!
# A recovered replica answers as its source

`GetRecovery` copies the entries of a snapshot into an empty database.  The
copy is not equal to the source: a key whose map of logs is empty is dropped,
because the loop over its logs does nothing.  No call can tell the two apart,
and `indistinguishable` says so for every sequence of calls.

The loops visit the received maps in an order that is not specified.
`RestoreOrder` is any such order, and the order by key that `restore` uses is
one of them.
-/

namespace PaxosKVStore

/-- An order in which the loops of `GetRecovery` visit a snapshot. -/
structure RestoreOrder (response : RecoverResponse) where
  kvMap : List (String × String)
  paxosLogs : List (String × List (Int × PaxosLog))
  mem_kvMap : ∀ key value, (key, value) ∈ kvMap ↔ response.kvMap.lookup key = some value
  mem_paxosLogs : ∀ key r log, (∃ logs, (key, logs) ∈ paxosLogs ∧ (r, log) ∈ logs) ↔
    ∃ logs, response.paxosLogs.lookup key = some logs ∧ logs.lookup r = some log

/-- The order by key. -/
def RestoreOrder.byKey (response : RecoverResponse) : RestoreOrder response where
  kvMap := entries response.kvMap
  paxosLogs := (entries response.paxosLogs).map fun entry => (entry.1, entries entry.2)
  mem_kvMap key value := mem_entries
  mem_paxosLogs key r log := by
    constructor
    · rintro ⟨logs, hentry, hlog⟩
      obtain ⟨entry, hmem, heq⟩ := List.mem_map.mp hentry
      cases heq
      exact ⟨entry.2, mem_entries.mp hmem, mem_entries.mp hlog⟩
    · rintro ⟨logs, hlogs, hlog⟩
      exact ⟨entries logs, List.mem_map.mpr ⟨(key, logs), mem_entries.mpr hlogs, rfl⟩,
        mem_entries.mpr hlog⟩

/-- The logs of an order, as the writes that `GetRecovery` makes. -/
def RestoreOrder.writes {response : RecoverResponse} (order : RestoreOrder response) :
    List (String × Int × PaxosLog) :=
  order.paxosLogs.flatMap fun entry => entry.2.map fun log => (entry.1, log.1, log.2)

theorem RestoreOrder.mem_writes {response : RecoverResponse} (order : RestoreOrder response)
    {key : String} {r : Int} {log : PaxosLog} :
    (key, r, log) ∈ order.writes ↔
      ∃ logs, response.paxosLogs.lookup key = some logs ∧ logs.lookup r = some log := by
  rw [← order.mem_paxosLogs, writes, List.mem_flatMap]
  constructor
  · rintro ⟨entry, hentry, hmem⟩
    obtain ⟨log', hlog, heq⟩ := List.mem_map.mp hmem
    cases heq
    exact ⟨entry.2, hentry, hlog⟩
  · rintro ⟨logs, hentry, hlog⟩
    exact ⟨(key, logs), hentry, List.mem_map.mpr ⟨(r, log), hlog, rfl⟩⟩

namespace KeyValueDataBase

/-- Both loops of `GetRecovery`, in any order. -/
def restoreIn (db : KeyValueDataBase) {response : RecoverResponse}
    (order : RestoreOrder response) : KeyValueDataBase :=
  order.paxosLogs.foldl (fun db entry => db.addPaxosLogs entry.1 entry.2)
    (db.setValues order.kvMap)

/-- `restore` visits the snapshot by key. -/
theorem restore_eq_restoreIn (db : KeyValueDataBase) (response : RecoverResponse) :
    db.restore response = db.restoreIn (.byKey response) := by
  rw [restore, restoreIn, RestoreOrder.byKey, List.foldl_map]

/-! ## What is restored -/

section Restored

variable {db : KeyValueDataBase} {response : RecoverResponse}

/-- The second loop is one write after the other. -/
theorem restoreIn_eq_foldl (order : RestoreOrder response) :
    db.restoreIn order =
      order.writes.foldl (fun db write => db.addPaxosLogRecovered write.1 write.2.1 write.2.2)
        (db.setValues order.kvMap) := by
  rw [restoreIn, RestoreOrder.writes, List.foldl_flatMap]
  congr 1
  funext db entry
  rw [addPaxosLogs, List.foldl_map]

theorem getValue_foldl_recovered (writes : List (String × Int × PaxosLog)) (key : String) :
    (writes.foldl (fun db write => db.addPaxosLogRecovered write.1 write.2.1 write.2.2)
      db).getValue key = db.getValue key := by
  induction writes generalizing db with
  | nil => rfl
  | cons write rest ih => exact ih

theorem rounds_setValues (kvMap : List (String × String)) (key : String) :
    (db.setValues kvMap).rounds key = db.rounds key := by
  unfold setValues
  induction kvMap generalizing db with
  | nil => rfl
  | cons kv rest ih => exact ih

theorem paxosLog_setValues (kvMap : List (String × String)) (key : String) (r : Int) :
    (db.setValues kvMap).paxosLog key r = db.paxosLog key r := by
  unfold setValues
  induction kvMap generalizing db with
  | nil => rfl
  | cons kv rest ih => exact ih

/-- A write logs its round. -/
theorem mem_rounds_foldl_recovered {writes : List (String × Int × PaxosLog)} {key : String}
    {r : Int} :
    r ∈ (writes.foldl (fun db write => db.addPaxosLogRecovered write.1 write.2.1 write.2.2)
        db).rounds key ↔
      (∃ log, (key, r, log) ∈ writes) ∨ r ∈ db.rounds key := by
  induction writes generalizing db with
  | nil => simp
  | cons write rest ih =>
    obtain ⟨key', r', log'⟩ := write
    rw [List.foldl_cons, ih, addPaxosLogRecovered, mem_rounds_updateLog]
    simp only [List.mem_cons, Prod.mk.injEq]
    constructor
    · rintro (⟨log, hlog⟩ | ⟨rfl, rfl⟩ | hr)
      · exact Or.inl ⟨log, Or.inr hlog⟩
      · exact Or.inl ⟨log', Or.inl ⟨rfl, rfl, rfl⟩⟩
      · exact Or.inr hr
    · rintro (⟨log, ⟨rfl, rfl, _⟩ | hlog⟩ | hr)
      · exact Or.inr (Or.inl ⟨rfl, rfl⟩)
      · exact Or.inl ⟨log, hlog⟩
      · exact Or.inr (Or.inr hr)

/-- A log that was written is the log of the snapshot, however often and when
it was written. -/
theorem paxosLog_foldl_recovered {writes : List (String × Int × PaxosLog)}
    {source : String → Int → PaxosLog}
    (hsource : ∀ key r log, (key, r, log) ∈ writes → source key r = log) (key : String)
    (r : Int) :
    (writes.foldl (fun db write => db.addPaxosLogRecovered write.1 write.2.1 write.2.2)
        db).paxosLog key r = source key r ∨
      (∀ log, (key, r, log) ∉ writes) ∧
        (writes.foldl (fun db write => db.addPaxosLogRecovered write.1 write.2.1 write.2.2)
          db).paxosLog key r = db.paxosLog key r := by
  induction writes generalizing db with
  | nil => exact Or.inr ⟨fun log => List.not_mem_nil, rfl⟩
  | cons write rest ih =>
    obtain ⟨key', r', log'⟩ := write
    have hhead := hsource key' r' log' List.mem_cons_self
    rw [List.foldl_cons]
    rcases @ih (db.addPaxosLogRecovered key' r' log')
      fun key r log hmem => hsource key r log (List.mem_cons_of_mem _ hmem) with h | ⟨hno, h⟩
    · exact Or.inl h
    · rw [h, addPaxosLogRecovered, paxosLog_updateLog]
      split
      · rename_i hat
        left
        rw [hat.1, hat.2, hhead]
      · rename_i hat
        refine Or.inr ⟨fun log hmem => ?_, rfl⟩
        rcases List.mem_cons.mp hmem with heq | hmem
        · cases heq
          exact hat ⟨rfl, rfl⟩
        · exact hno log hmem

end Restored

end KeyValueDataBase

/-! ## The copy of an empty server -/

namespace MultiPaxosServiceImpl

variable (s : MultiPaxosServiceImpl)

/-- What the snapshot has of a log. -/
theorem lookup_recover {key : String} {r : Int} {log : PaxosLog} :
    (∃ logs, s.recover.paxosLogs.lookup key = some logs ∧ logs.lookup r = some log) ↔
      (s.kvDb.logsOf key).lookup r = some log := by
  rw [KeyValueDataBase.logsOf, recover]
  constructor
  · rintro ⟨logs, hlogs, hlog⟩
    rw [hlogs]
    exact hlog
  · intro h
    cases hlogs : s.kvDb.paxosLogsMap.lookup key with
    | none => simp [hlogs] at h
    | some logs =>
      rw [hlogs] at h
      exact ⟨logs, rfl, h⟩

/-- A server that had nothing stored and has applied the snapshot of `s`, with
the replica list and the coordinator of `s`. -/
def recovered (address : Addr) (order : RestoreOrder s.recover) : MultiPaxosServiceImpl :=
  { s with
    myPaxosAddress := address
    kvDb := ({} : KeyValueDataBase).restoreIn order }

variable (address : Addr) (order : RestoreOrder s.recover) (key : String)

theorem getValue_recovered :
    (s.recovered address order).kvDb.getValue key = s.kvDb.getValue key := by
  show (({} : KeyValueDataBase).restoreIn order).getValue key = s.kvDb.getValue key
  rw [KeyValueDataBase.restoreIn_eq_foldl, KeyValueDataBase.getValue_foldl_recovered,
    KeyValueDataBase.getValue_setValues (m := s.kvDb.dataMap)
      fun kv => (order.mem_kvMap kv.1 kv.2).mp]
  split
  · rfl
  · rename_i hno
    rw [KeyValueDataBase.getValue_empty, KeyValueDataBase.getValue]
    cases hlookup : s.kvDb.dataMap.lookup key with
    | none => rfl
    | some value =>
      exact absurd (List.mem_map.mpr ⟨_, (order.mem_kvMap key value).mpr hlookup, rfl⟩) hno

theorem rounds_recovered :
    (s.recovered address order).kvDb.rounds key = s.kvDb.rounds key := by
  ext r
  show r ∈ (({} : KeyValueDataBase).restoreIn order).rounds key ↔ _
  rw [KeyValueDataBase.restoreIn_eq_foldl, KeyValueDataBase.mem_rounds_foldl_recovered,
    KeyValueDataBase.rounds_setValues, KeyValueDataBase.rounds_empty]
  simp only [order.mem_writes, lookup_recover, Finset.notMem_empty, or_false]
  rw [KeyValueDataBase.rounds, Finmap.mem_keys, Finmap.mem_iff]

theorem paxosLog_recovered (r : Int) :
    (s.recovered address order).kvDb.paxosLog key r = s.kvDb.paxosLog key r := by
  have hsource : ∀ key r log, (key, r, log) ∈ order.writes → s.kvDb.paxosLog key r = log := by
    intro key r log hmem
    rw [KeyValueDataBase.paxosLog, s.lookup_recover.mp (order.mem_writes.mp hmem)]
    rfl
  show (({} : KeyValueDataBase).restoreIn order).paxosLog key r = s.kvDb.paxosLog key r
  rw [KeyValueDataBase.restoreIn_eq_foldl]
  rcases KeyValueDataBase.paxosLog_foldl_recovered hsource key r with h | ⟨hno, h⟩
  · exact h
  · -- neither database has a log there
    rw [h, KeyValueDataBase.paxosLog_setValues, KeyValueDataBase.paxosLog_empty,
      KeyValueDataBase.paxosLog]
    cases hlookup : (s.kvDb.logsOf key).lookup r with
    | none => rfl
    | some log => exact absurd (order.mem_writes.mpr (s.lookup_recover.mpr hlookup)) (hno log)

theorem alikeAt_recovered : AlikeAt key (s.recovered address order) s where
  stubs := rfl
  failRate := rfl
  rounds := s.rounds_recovered address order key
  log r := s.paxosLog_recovered address order key r
  value := s.getValue_recovered address order key

/-! ## Every sequence of calls -/

/-- What a client or a proposer can do with a server. -/
inductive Probe where
  | getValue (context : ServerContext) (request : GetRequest)
  | handle (context : ServerContext) (randomFail : Bool) (msg : Message)
  | chooseRound (key : String)

/-- What it gets to see. -/
inductive Observation where
  | value (status : Status) (response : GetResponse)
  | reply (reply : Reply)
  | round (round : Int)
  deriving DecidableEq, Repr

/-- The answer to one probe, and the server after it.  The round is the one
that `RunPaxos` chooses. -/
def probe (s : MultiPaxosServiceImpl) : Probe → Observation × MultiPaxosServiceImpl
  | .getValue context request =>
      let (status, response) := s.getValue context request
      (.value status response, s)
  | .handle context randomFail msg =>
      let (reply, s') := s.handle context randomFail msg
      (.reply reply, s')
  | .chooseRound key =>
      let (latestRound, kvDb) := s.kvDb.getLatestRound key
      (.round (latestRound + 1), { s with kvDb := kvDb })

/-- The answers to a sequence of probes, and the server after it. -/
def observe (s : MultiPaxosServiceImpl) : List Probe → List Observation × MultiPaxosServiceImpl
  | [] => ([], s)
  | p :: rest =>
      let (observation, s') := s.probe p
      let (observations, s'') := s'.observe rest
      (observation :: observations, s'')

/-- The servers agree on every key and on the coordinator. -/
structure Alike (s t : MultiPaxosServiceImpl) : Prop where
  at_key : ∀ key, AlikeAt key s t
  coordinator : CoordinatorsAlike s t

variable {s}

/-- Servers that agree answer a probe alike, and agree after it. -/
theorem Alike.probe {t : MultiPaxosServiceImpl} (h : Alike s t) (p : Probe) :
    (s.probe p).1 = (t.probe p).1 ∧ Alike (s.probe p).2 (t.probe p).2 := by
  cases p with
  | getValue context request =>
    have hanswer : s.getValue context request = t.getValue context request := by
      simp only [MultiPaxosServiceImpl.getValue, (h.at_key request.key).value]
    exact ⟨by simp only [MultiPaxosServiceImpl.probe, hanswer], h⟩
  | handle context randomFail msg =>
    have hanswer : (s.handle context randomFail msg).1 = (t.handle context randomFail msg).1 := by
      cases hslot : msg.slot with
      | none =>
        apply (h.at_key "").answer
        rw [hslot]
        exact fun slot hmem => absurd hmem (Option.not_mem_none slot)
      | some slot =>
        apply (h.at_key slot.1).answer
        rw [hslot]
        intro slot' hmem
        rw [Option.mem_some_iff.mp hmem]
    refine ⟨congrArg Observation.reply hanswer, ?_, ?_⟩
    · intro key
      exact (h.at_key key).handle hanswer
    · exact AlikeAt.coordinator_handle (h.at_key "").stubs h.coordinator hanswer
  | chooseRound key =>
    refine ⟨?_, ?_, h.coordinator⟩
    · exact congrArg (fun latestRound => Observation.round (latestRound + 1))
        (h.at_key key).latestRound
    · intro key'
      have hs := AlikeAt.getLatestRound s key' key
      have ht := AlikeAt.getLatestRound t key' key
      exact (hs.trans (h.at_key key')).trans ht.symm

theorem Alike.observe {t : MultiPaxosServiceImpl} (h : Alike s t) (probes : List Probe) :
    (s.observe probes).1 = (t.observe probes).1 ∧
      Alike (s.observe probes).2 (t.observe probes).2 := by
  induction probes generalizing s t with
  | nil => exact ⟨rfl, h⟩
  | cons p rest ih =>
    obtain ⟨hanswer, halike⟩ := h.probe p
    obtain ⟨hanswers, hafter⟩ := ih halike
    refine ⟨?_, hafter⟩
    show (s.probe p).1 :: ((s.probe p).2.observe rest).1 =
      (t.probe p).1 :: ((t.probe p).2.observe rest).1
    rw [hanswer, hanswers]

/-- A recovered replica and its source give the same answers to every sequence
of calls and choose the same rounds, and agree after it, in whatever order the
snapshot was applied. -/
theorem indistinguishable (s : MultiPaxosServiceImpl) (address : Addr)
    (order : RestoreOrder s.recover) (probes : List Probe) :
    ((s.recovered address order).observe probes).1 = (s.observe probes).1 ∧
      Alike ((s.recovered address order).observe probes).2 (s.observe probes).2 := by
  apply Alike.observe
  exact ⟨fun key => s.alikeAt_recovered address order key, rfl⟩

end MultiPaxosServiceImpl

end PaxosKVStore
