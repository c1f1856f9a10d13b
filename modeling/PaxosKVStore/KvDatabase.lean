import Mathlib.Data.Finmap
import Mathlib.Data.Finset.Max
import PaxosKVStore.Proto

/-!
# The in-memory database of a server

`KeyValueDataBase` holds the key-value map and, for each key, the Paxos logs
by round.  `std::unordered_map` and `std::map` are both `Finmap`: a lookup
does not depend on the order of the entries, and `rbegin()->first` is the
greatest key.

`operator[]` inserts a default element where the key is missing, so
`getPaxosLog` and `getLatestRound` return a new database next to their
answer.  `KeyValueDataBase.rounds`, `paxosLog` and `latestRound` are the pure
reads behind them, and the lemmas of this module say what each operation does
to these three and to the data map.  No later module looks inside the maps.
-/

namespace PaxosKVStore

/-- `std::map<int, PaxosLog>`, the logs of one key by round. -/
abbrev PaxosLogs := Finmap fun _ : Int => PaxosLog

/-- `std::unordered_map<std::string, std::string>`. -/
abbrev DataMap := Finmap fun _ : String => String

structure KeyValueDataBase where
  dataMap : DataMap := ∅
  paxosLogsMap : Finmap fun _ : String => PaxosLogs := ∅
  deriving DecidableEq

namespace KeyValueDataBase

/-! ## Pure reads -/

/-- The logs under `key`, empty where the key is missing. -/
def logsOf (db : KeyValueDataBase) (key : String) : PaxosLogs :=
  (db.paxosLogsMap.lookup key).getD ∅

/-- The rounds that are logged under `key`. -/
def rounds (db : KeyValueDataBase) (key : String) : Finset Int :=
  (db.logsOf key).keys

/-- The log of `key` and `round`, with default fields where there is none. -/
def paxosLog (db : KeyValueDataBase) (key : String) (round : Int) : PaxosLog :=
  ((db.logsOf key).lookup round).getD {}

/-- The greatest logged round of `key`, and 0 where none is logged. -/
def latestRound (db : KeyValueDataBase) (key : String) : Int :=
  (db.rounds key).max.unbotD 0

/-! ## The operations of the class -/

/-- `GetValue`: the value, or `none` where the source returns `false`. -/
def getValue (db : KeyValueDataBase) (key : String) : Option String :=
  db.dataMap.lookup key

/-- `SetValue`: whether a value was overwritten. -/
def setValue (db : KeyValueDataBase) (key val : String) : Bool × KeyValueDataBase :=
  ((db.dataMap.lookup key).isSome, { db with dataMap := db.dataMap.insert key val })

/-- `DeleteEntry`: whether there was an entry. -/
def deleteEntry (db : KeyValueDataBase) (key : String) : Bool × KeyValueDataBase :=
  ((db.dataMap.lookup key).isSome, { db with dataMap := db.dataMap.erase key })

/-- `paxos_logs_map_[key]`, which inserts an empty map for a missing key. -/
def touchKey (db : KeyValueDataBase) (key : String) : KeyValueDataBase :=
  { db with paxosLogsMap := db.paxosLogsMap.insert key (db.logsOf key) }

/-- `paxos_logs_map_[key][round]` with the fields of the element changed by
`change`. -/
def updateLog (db : KeyValueDataBase) (key : String) (round : Int)
    (change : PaxosLog → PaxosLog) : KeyValueDataBase :=
  { db with
    paxosLogsMap := db.paxosLogsMap.insert key
      ((db.logsOf key).insert round (change (db.paxosLog key round))) }

/-- `GetPaxosLog`. -/
def getPaxosLog (db : KeyValueDataBase) (key : String) (round : Int) :
    PaxosLog × KeyValueDataBase :=
  (db.paxosLog key round, db.updateLog key round id)

/-- `GetLatestRound`. -/
def getLatestRound (db : KeyValueDataBase) (key : String) : Int × KeyValueDataBase :=
  (db.latestRound key, db.touchKey key)

/-- `AddPaxosLog(key, round)`, when an acceptor receives a proposal. -/
def addPaxosLog (db : KeyValueDataBase) (key : String) (round : Int) : KeyValueDataBase :=
  db.updateLog key round id

/-- `AddPaxosLog(key, round, accepted_id, accepted_type, accepted_value)`,
when an acceptor accepts a proposal. -/
def addPaxosLogAccepted (db : KeyValueDataBase) (key : String) (round acceptedId : Int)
    (acceptedType : OperationType) (acceptedValue : String) : KeyValueDataBase :=
  db.updateLog key round fun log =>
    { log with
      acceptedId := acceptedId
      acceptedType := acceptedType
      acceptedValue := acceptedValue }

/-- `GetPaxosLogKeys`. -/
def getPaxosLogKeys (db : KeyValueDataBase) : Finset String := db.paxosLogsMap.keys

/-- `AddPaxosLog` with all four fields, from a recovery snapshot. -/
def addPaxosLogRecovered (db : KeyValueDataBase) (key : String) (round : Int)
    (recovered : PaxosLog) : KeyValueDataBase :=
  db.updateLog key round fun _ => recovered

/-! ## What the operations do to the reads -/

variable (db : KeyValueDataBase) (key key' : String) (round round' : Int)
  (change : PaxosLog → PaxosLog)

@[simp] theorem rounds_empty : ({} : KeyValueDataBase).rounds key = ∅ := by
  simp [rounds, logsOf]

@[simp] theorem paxosLog_empty : ({} : KeyValueDataBase).paxosLog key round = {} := by
  simp [paxosLog, logsOf]

@[simp] theorem getValue_empty : ({} : KeyValueDataBase).getValue key = none := by
  simp [getValue]

theorem logsOf_updateLog :
    (db.updateLog key round change).logsOf key' =
      if key' = key then (db.logsOf key).insert round (change (db.paxosLog key round))
      else db.logsOf key' := by
  unfold logsOf updateLog
  split
  · rename_i h
    rw [h, Finmap.lookup_insert]
    rfl
  · rename_i h
    rw [Finmap.lookup_insert_of_ne _ h]

theorem rounds_updateLog :
    (db.updateLog key round change).rounds key' =
      if key' = key then insert round (db.rounds key) else db.rounds key' := by
  rw [rounds, logsOf_updateLog]
  split
  · ext r
    simp [rounds, Finmap.mem_keys, Finmap.mem_insert]
  · rfl

theorem mem_rounds_updateLog {r : Int} :
    r ∈ (db.updateLog key round change).rounds key' ↔
      (key' = key ∧ r = round) ∨ r ∈ db.rounds key' := by
  rw [rounds_updateLog]
  split
  · rename_i h
    simp [h]
  · rename_i h
    simp [h]

theorem paxosLog_updateLog :
    (db.updateLog key round change).paxosLog key' round' =
      if key' = key ∧ round' = round then change (db.paxosLog key round)
      else db.paxosLog key' round' := by
  rw [paxosLog, logsOf_updateLog]
  by_cases hkey : key' = key
  · subst hkey
    by_cases hround : round' = round
    · subst hround
      simp
    · simp [hround, Finmap.lookup_insert_of_ne _ hround, paxosLog]
  · simp [hkey, paxosLog]

/-- Adding a round leaves the fields of every log as they are. -/
@[simp] theorem paxosLog_addPaxosLog :
    (db.addPaxosLog key round).paxosLog key' round' = db.paxosLog key' round' := by
  rw [addPaxosLog, paxosLog_updateLog]
  split
  · rename_i h
    rw [h.1, h.2, id]
  · rfl

/-- Two changes of one log are one. -/
theorem updateLog_updateLog (change' : PaxosLog → PaxosLog) :
    (db.updateLog key round change).updateLog key round change' =
      db.updateLog key round (change' ∘ change) := by
  have hlog : (db.updateLog key round change).paxosLog key round =
      change (db.paxosLog key round) := by
    rw [paxosLog_updateLog, if_pos ⟨rfl, rfl⟩]
  have hlogs : (db.updateLog key round change).logsOf key =
      (db.logsOf key).insert round (change (db.paxosLog key round)) := by
    rw [logsOf_updateLog, if_pos rfl]
  rw [updateLog, hlog, hlogs, Finmap.insert_insert]
  simp only [updateLog, Finmap.insert_insert, Function.comp_apply]

@[simp] theorem dataMap_updateLog : (db.updateLog key round change).dataMap = db.dataMap := rfl

@[simp] theorem getValue_updateLog :
    (db.updateLog key round change).getValue key' = db.getValue key' := rfl

theorem logsOf_touchKey : (db.touchKey key).logsOf key' = db.logsOf key' := by
  by_cases h : key' = key
  · subst h
    simp [touchKey, logsOf]
  · simp [touchKey, logsOf, Finmap.lookup_insert_of_ne _ h]

@[simp] theorem rounds_touchKey : (db.touchKey key).rounds key' = db.rounds key' := by
  rw [rounds, logsOf_touchKey, rounds]

@[simp] theorem paxosLog_touchKey :
    (db.touchKey key).paxosLog key' round = db.paxosLog key' round := by
  rw [paxosLog, logsOf_touchKey, paxosLog]

@[simp] theorem dataMap_touchKey : (db.touchKey key).dataMap = db.dataMap := rfl

@[simp] theorem getValue_touchKey : (db.touchKey key).getValue key' = db.getValue key' := rfl

@[simp] theorem rounds_setValue (val : String) :
    (db.setValue key val).2.rounds key' = db.rounds key' := rfl

@[simp] theorem paxosLog_setValue (val : String) :
    (db.setValue key val).2.paxosLog key' round = db.paxosLog key' round := rfl

theorem getValue_setValue (val : String) :
    (db.setValue key val).2.getValue key' =
      if key' = key then some val else db.getValue key' := by
  unfold getValue setValue
  split
  · rename_i h
    rw [h, Finmap.lookup_insert]
  · rename_i h
    rw [Finmap.lookup_insert_of_ne _ h]

@[simp] theorem rounds_deleteEntry :
    (db.deleteEntry key).2.rounds key' = db.rounds key' := rfl

@[simp] theorem paxosLog_deleteEntry :
    (db.deleteEntry key).2.paxosLog key' round = db.paxosLog key' round := rfl

theorem getValue_deleteEntry :
    (db.deleteEntry key).2.getValue key' =
      if key' = key then none else db.getValue key' := by
  unfold getValue deleteEntry
  split
  · rename_i h
    rw [h, Finmap.lookup_erase]
  · rename_i h
    rw [Finmap.lookup_erase_ne h]

/-- Two data maps with the same entries are the same map. -/
theorem dataMap_ext {db db' : KeyValueDataBase}
    (h : ∀ key, db.getValue key = db'.getValue key) : db.dataMap = db'.dataMap :=
  Finmap.ext_lookup h

/-! ## The latest round -/

variable {db key round}

/-- A logged round is at most the latest one. -/
theorem le_latestRound (h : round ∈ db.rounds key) : round ≤ db.latestRound key := by
  unfold latestRound
  obtain ⟨m, hm⟩ := Finset.max_of_mem h
  rw [hm, WithBot.unbotD_coe]
  exact Finset.le_max_of_eq h hm

/-- Without a logged round the latest round is 0, and otherwise it is logged. -/
theorem latestRound_cases (db : KeyValueDataBase) (key : String) :
    (db.rounds key = ∅ ∧ db.latestRound key = 0) ∨ db.latestRound key ∈ db.rounds key := by
  unfold latestRound
  rcases Finset.eq_empty_or_nonempty (db.rounds key) with h | h
  · left
    simp [h]
  · right
    obtain ⟨m, hm⟩ := Finset.max_of_nonempty h
    rw [hm, WithBot.unbotD_coe]
    exact Finset.mem_of_max hm

/-- The latest round depends on the logged rounds only. -/
theorem latestRound_congr {db db' : KeyValueDataBase} {key : String}
    (h : db.rounds key = db'.rounds key) : db.latestRound key = db'.latestRound key := by
  rw [latestRound, h, latestRound]

/-- A round that is not logged has a log with default fields. -/
theorem paxosLog_of_notMem (h : round ∉ db.rounds key) : db.paxosLog key round = {} := by
  have hnone : (db.logsOf key).lookup round = none := by
    rw [Finmap.lookup_eq_none]
    intro hmem
    exact h (Finmap.mem_keys.mpr hmem)
  rw [paxosLog, hnone]
  rfl

@[simp] theorem latestRound_empty : ({} : KeyValueDataBase).latestRound key = 0 := by
  rcases latestRound_cases {} key with ⟨_, h⟩ | h
  · exact h
  · simp at h

@[simp] theorem latestRound_touchKey :
    (db.touchKey key').latestRound key = db.latestRound key :=
  latestRound_congr (rounds_touchKey db key' key)

/-- A round above `round` is logged under `key`. -/
def Supersedes (db : KeyValueDataBase) (key : String) (round : Int) : Prop :=
  ∃ r ∈ db.rounds key, round < r

instance (db : KeyValueDataBase) (key : String) (round : Int) :
    Decidable (db.Supersedes key round) :=
  inferInstanceAs (Decidable (∃ r ∈ db.rounds key, round < r))

/-- Once `round` itself is logged, the comparison with the latest round asks
for a higher logged round. -/
theorem lt_latestRound_iff (h : round ∈ db.rounds key) :
    round < db.latestRound key ↔ db.Supersedes key round := by
  constructor
  · intro hlt
    rcases latestRound_cases db key with ⟨hempty, _⟩ | hmem
    · rw [hempty] at h
      exact absurd h (Finset.notMem_empty _)
    · exact ⟨_, hmem, hlt⟩
  · rintro ⟨r, hr, hlt⟩
    exact lt_of_lt_of_le hlt (le_latestRound hr)

theorem supersedes_congr {db db' : KeyValueDataBase} {key : String} {round : Int}
    (h : ∀ r, round < r → (r ∈ db.rounds key ↔ r ∈ db'.rounds key)) :
    db.Supersedes key round ↔ db'.Supersedes key round := by
  constructor
  · rintro ⟨r, hr, hlt⟩
    exact ⟨r, (h r hlt).mp hr, hlt⟩
  · rintro ⟨r, hr, hlt⟩
    exact ⟨r, (h r hlt).mpr hr, hlt⟩

/-! ## Databases with the same entries -/

theorem mem_getPaxosLogKeys_updateLog (db : KeyValueDataBase) (key key' : String) (round : Int)
    (change : PaxosLog → PaxosLog) :
    key' ∈ (db.updateLog key round change).getPaxosLogKeys ↔
      key' = key ∨ key' ∈ db.getPaxosLogKeys := by
  rw [getPaxosLogKeys, getPaxosLogKeys, Finmap.mem_keys, Finmap.mem_keys, updateLog,
    Finmap.mem_insert]

theorem mem_getPaxosLogKeys_touchKey (db : KeyValueDataBase) (key key' : String) :
    key' ∈ (db.touchKey key).getPaxosLogKeys ↔ key' = key ∨ key' ∈ db.getPaxosLogKeys := by
  rw [getPaxosLogKeys, getPaxosLogKeys, Finmap.mem_keys, Finmap.mem_keys, touchKey,
    Finmap.mem_insert]

/-- A lookup, read off the presence of the key and its default. -/
theorem lookup_eq_of_getD {κ ν : Type} [DecidableEq κ] {m : Finmap fun _ : κ => ν} (key : κ)
    (default : ν) :
    m.lookup key = if key ∈ m.keys then some ((m.lookup key).getD default) else none := by
  cases hlookup : m.lookup key with
  | none =>
    rw [if_neg]
    rw [Finmap.mem_keys]
    exact Finmap.lookup_eq_none.mp hlookup
  | some value =>
    rw [if_pos]
    · rfl
    · rw [Finmap.mem_keys, Finmap.mem_iff]
      exact ⟨value, hlookup⟩

/-- A database is determined by its values, its keys with a log map, and the
rounds and fields of its logs. -/
theorem ext_of_reads {db db' : KeyValueDataBase}
    (hvalue : ∀ key, db.getValue key = db'.getValue key)
    (hkeys : db.getPaxosLogKeys = db'.getPaxosLogKeys)
    (hrounds : ∀ key, db.rounds key = db'.rounds key)
    (hlog : ∀ key r, db.paxosLog key r = db'.paxosLog key r) : db = db' := by
  have hlogs : ∀ key, db.logsOf key = db'.logsOf key := by
    intro key
    refine Finmap.ext_lookup fun r => ?_
    have hround : (db.logsOf key).keys = (db'.logsOf key).keys := hrounds key
    have hfields : ((db.logsOf key).lookup r).getD {} = ((db'.logsOf key).lookup r).getD {} :=
      hlog key r
    rw [lookup_eq_of_getD (m := db.logsOf key) r {}, hround, hfields,
      ← lookup_eq_of_getD (m := db'.logsOf key) r {}]
  have hmap : db.paxosLogsMap = db'.paxosLogsMap := by
    refine Finmap.ext_lookup fun key => ?_
    have hkeys' : db.paxosLogsMap.keys = db'.paxosLogsMap.keys := hkeys
    have hlogs' : (db.paxosLogsMap.lookup key).getD ∅ = (db'.paxosLogsMap.lookup key).getD ∅ :=
      hlogs key
    rw [lookup_eq_of_getD (m := db.paxosLogsMap) key ∅, hkeys', hlogs',
      ← lookup_eq_of_getD (m := db'.paxosLogsMap) key ∅]
  have hdata := dataMap_ext hvalue
  obtain ⟨dataMap, paxosLogsMap⟩ := db
  obtain ⟨dataMap', paxosLogsMap'⟩ := db'
  cases hdata
  cases hmap
  rfl

end KeyValueDataBase

end PaxosKVStore
