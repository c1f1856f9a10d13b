import PaxosKVStore.Lib.Register
import PaxosKVStore.MultiPaxosService

/-!
# Learning in any order

A learner gets `Inform` requests over the network, so in any order and some of
them twice.  Two of them do not commute in what they execute: the older one is
executed or refused, depending on what came before.

What is left in the end does not depend on it.  Under one key a learner is a
`Register` whose stamps are the logged rounds: `register_learn` says that its
`Inform` requests are the writes of that register.  The logs are the same
because requests for one slot write the same acceptance.
-/

namespace PaxosKVStore

namespace MultiPaxosServiceImpl

/-- The server after a sequence of `Inform` calls. -/
def learn (s : MultiPaxosServiceImpl) (requests : List InformRequest) : MultiPaxosServiceImpl :=
  requests.foldl (fun s request => (s.inform {} request).2) s

/-- The entry of a key, stamped with the rounds that are logged for it. -/
def register (s : MultiPaxosServiceImpl) (key : String) : Register Int (Option String) where
  stamps := { r | r ∈ s.kvDb.rounds key }
  value := s.kvDb.getValue key

end MultiPaxosServiceImpl

/-- The operation of the request sets or deletes a value. -/
def InformRequest.Writes (request : InformRequest) : Prop :=
  request.acceptance.type = .set ∨ request.acceptance.type = .delete

instance (request : InformRequest) : Decidable request.Writes :=
  inferInstanceAs (Decidable (_ ∨ _))

/-- What a request that writes leaves of the entry of its key. -/
def InformRequest.written (request : InformRequest) : Option String :=
  request.acceptance.operation.effect none

theorem InformRequest.Writes.effect {request : InformRequest} (h : request.Writes)
    (before : Option String) :
    request.acceptance.operation.effect before = request.written := by
  rcases h with h | h <;> simp [written, Operation.effect, AcceptResponse.operation, h]

/-- The requests for `key` as writes of its register. -/
def writesOf (key : String) (requests : List InformRequest) : List (Int × Option String) :=
  requests.filterMap fun request =>
    if request.key = key then some (request.acceptance.round, request.written) else none

theorem mem_writesOf {key : String} {requests : List InformRequest} {w : Int × Option String} :
    w ∈ writesOf key requests ↔ ∃ request ∈ requests, request.key = key ∧
      (request.acceptance.round, request.written) = w := by
  simp only [writesOf, List.mem_filterMap]
  constructor
  · rintro ⟨request, hmem, h⟩
    split at h
    · rename_i hkey
      exact ⟨request, hmem, hkey, Option.some.inj h⟩
    · cases h
  · rintro ⟨request, hmem, hkey, rfl⟩
    exact ⟨request, hmem, if_pos hkey⟩

namespace MultiPaxosServiceImpl

section Learn

variable (s : MultiPaxosServiceImpl) (request : InformRequest) (requests : List InformRequest)

theorem learn_snoc : s.learn (requests ++ [request]) = ((s.learn requests).inform {} request).2 :=
  List.foldl_concat ..

/-! ## The entries -/

/-- An `Inform` is a write of the register of its key. -/
theorem register_inform (hwrites : request.Writes) (key : String) :
    ((s.inform {} request).2).register key = (s.register key).writes (writesOf key [request]) := by
  have hhandled := inform_handled s false request
  have hrounds := hhandled.rounds key
  have hvalue := hhandled.value key
  rw [handle_logged] at hrounds
  have hiff := s.inform_ok_iff request
  by_cases hkey : request.key = key
  · subst hkey
    have hwrite : writesOf request.key [request] =
        [(request.acceptance.round, request.written)] := by simp [writesOf]
    rw [hwrite]
    show _ = (s.register request.key).write _
    rw [register, Register.write, Register.mk.injEq]
    constructor
    · ext r
      simp only [Set.mem_ofPred_eq, Set.mem_insert_iff, register]
      refine (hrounds r).trans ?_
      simp [Message.slot, eq_comm]
    · by_cases hsuper : s.kvDb.Supersedes request.key request.acceptance.round
      · have hover : (s.register request.key).Overtaken request.acceptance.round := hsuper
        have hexecuted : (Message.inform request).executed
            (s.handle {} false (.inform request)).1 = none :=
          if_neg fun hok => hiff.mp hok hsuper
        rw [hexecuted] at hvalue
        rw [if_pos hover]
        exact hvalue
      · have hfree : ¬ (s.register request.key).Overtaken request.acceptance.round := hsuper
        have hexecuted : (Message.inform request).executed
            (s.handle {} false (.inform request)).1 =
              some (request.key, request.acceptance.operation) := if_pos (hiff.mpr hsuper)
        rw [hexecuted] at hvalue
        simp only [if_true, hwrites.effect] at hvalue
        rw [if_neg hfree]
        exact hvalue
  · have hwrite : writesOf key [request] = [] := by simp [writesOf, hkey]
    rw [hwrite]
    show _ = s.register key
    rw [register, register, Register.mk.injEq]
    constructor
    · ext r
      simp only [Set.mem_ofPred_eq]
      refine (hrounds r).trans ?_
      simp [Message.slot, hkey]
    · refine hvalue.trans ?_
      split
      · rename_i key' op hexecuted
        obtain ⟨r, hslot⟩ := Message.slot_of_executed hexecuted
        rw [Message.slot, Option.some.injEq, Prod.mk.injEq] at hslot
        exact if_neg fun heq => hkey (hslot.1.trans heq.symm)
      · rfl

/-- The requests that a learner gets are the writes of its registers. -/
theorem register_learn {requests : List InformRequest} (hwrites : ∀ m ∈ requests, m.Writes)
    (key : String) :
    (s.learn requests).register key = (s.register key).writes (writesOf key requests) := by
  induction requests using List.reverseRecOn with
  | nil => rfl
  | append_singleton requests request ih =>
    have hrest := ih fun m hm => hwrites m (List.mem_append_left _ hm)
    rw [learn_snoc, register_inform _ _ (hwrites request (by simp)), hrest, writesOf, writesOf,
      writesOf, List.filterMap_append, Register.writes, Register.writes, Register.writes,
      List.foldl_append]

/-! ## The logs -/

/-- The logged rounds are the old ones and those of the requests. -/
theorem mem_rounds_learn {key : String} {r : Int} :
    r ∈ (s.learn requests).kvDb.rounds key ↔ r ∈ s.kvDb.rounds key ∨
      ∃ m ∈ requests, m.key = key ∧ m.acceptance.round = r := by
  induction requests using List.reverseRecOn with
  | nil => simp [learn]
  | append_singleton requests request ih =>
    have hrounds := (inform_handled (s.learn requests) false request).rounds key r
    rw [handle_logged] at hrounds
    rw [learn_snoc]
    refine hrounds.trans ?_
    rw [ih, Message.slot, Option.some.injEq, Prod.mk.injEq]
    simp only [List.mem_append, List.mem_singleton, or_and_right, exists_or, exists_eq_left]
    exact or_rotate

/-- The keys with a log map are the old ones and those of the requests. -/
theorem mem_getPaxosLogKeys_learn {key : String} :
    key ∈ (s.learn requests).kvDb.getPaxosLogKeys ↔
      key ∈ s.kvDb.getPaxosLogKeys ∨ ∃ m ∈ requests, m.key = key := by
  induction requests using List.reverseRecOn with
  | nil => simp [learn]
  | append_singleton requests request ih =>
    have hexecute : ∀ (s : MultiPaxosServiceImpl) (key : String) (op : Operation),
        (s.execute key op).kvDb.getPaxosLogKeys = s.kvDb.getPaxosLogKeys := by
      intro s key op
      unfold execute
      split <;> rfl
    have hkeys : key ∈ ((s.learn requests).inform {} request).2.kvDb.getPaxosLogKeys ↔
        key = request.key ∨ key ∈ (s.learn requests).kvDb.getPaxosLogKeys := by
      rw [inform_server]
      simp only
      split <;> simp [hexecute, KeyValueDataBase.mem_getPaxosLogKeys_touchKey,
        KeyValueDataBase.addPaxosLogAccepted, KeyValueDataBase.mem_getPaxosLogKeys_updateLog]
    rw [learn_snoc, hkeys, ih]
    simp only [List.mem_append, List.mem_singleton, or_and_right, exists_or, exists_eq_left]
    rw [eq_comm]
    exact or_rotate

/-- A log keeps its fields where no request writes, and takes over the
acceptance where all that do carry the same one. -/
theorem paxosLog_learn {key : String} {r : Int} {acceptance : AcceptResponse}
    (hsame : ∀ m ∈ requests, m.key = key → m.acceptance.round = r → m.acceptance = acceptance) :
    (s.learn requests).kvDb.paxosLog key r =
      if ∃ m ∈ requests, m.key = key ∧ m.acceptance.round = r then
        (s.kvDb.paxosLog key r).accept acceptance
      else s.kvDb.paxosLog key r := by
  induction requests using List.reverseRecOn with
  | nil => simp [learn]
  | append_singleton requests request ih =>
    have hrest := ih fun m hm => hsame m (List.mem_append_left _ hm)
    have hlog := (inform_handled (s.learn requests) false request).log key r
    have hrecorded : (Message.inform request).recorded
        ((s.learn requests).handle {} false (.inform request)).1 = some request :=
      if_neg (inform_not_cancelled _ _)
    rw [hrecorded] at hlog
    simp only [handle] at hlog
    rw [learn_snoc, hlog, hrest]
    by_cases hat : key = request.key ∧ r = request.acceptance.round
    · have hacceptance := hsame request (by simp) hat.1.symm hat.2.symm
      have hslot : ∃ m ∈ requests ++ [request], m.key = key ∧ m.acceptance.round = r :=
        ⟨request, by simp, hat.1.symm, hat.2.symm⟩
      rw [if_pos hat, if_pos hslot, hacceptance]
      split <;> rfl
    · rw [if_neg hat]
      refine if_congr ?_ rfl rfl
      simp only [List.mem_append, List.mem_singleton, or_and_right, exists_or, exists_eq_left]
      rw [or_iff_left]
      rintro ⟨hkey, hround⟩
      exact hat ⟨hkey.symm, hround.symm⟩

end Learn

/-! ## Confluence -/

/-- Requests for one slot are the same request. -/
def OnePerSlot (requests : List InformRequest) : Prop :=
  ∀ m ∈ requests, ∀ m' ∈ requests, m.key = m'.key →
    m.acceptance.round = m'.acceptance.round → m = m'

instance (requests : List InformRequest) : Decidable (OnePerSlot requests) :=
  inferInstanceAs (Decidable (∀ m ∈ requests, ∀ m' ∈ requests, _ → _ → _))

variable {s : MultiPaxosServiceImpl} {first second : List InformRequest}

theorem writesOf_agree (hslots : OnePerSlot first) {key : String} {w w' : Int × Option String}
    (hw : w ∈ writesOf key first) (hw' : w' ∈ writesOf key first) (hstamp : w'.1 = w.1) :
    w'.2 = w.2 := by
  obtain ⟨m, hm, hkey, rfl⟩ := mem_writesOf.mp hw
  obtain ⟨m', hm', hkey', rfl⟩ := mem_writesOf.mp hw'
  rw [hslots m' hm' m hm (hkey'.trans hkey.symm) hstamp]

/-- The same requests leave the same database, in any order and with any
repetitions. -/
theorem kvDb_learn_congr (hmem : ∀ m, m ∈ first ↔ m ∈ second)
    (hwrites : ∀ m ∈ first, m.Writes) (hslots : OnePerSlot first) :
    (s.learn first).kvDb = (s.learn second).kvDb := by
  refine KeyValueDataBase.ext_of_reads ?_ ?_ ?_ ?_
  · intro key
    have hregister := congrArg Register.value (s.register_learn hwrites key)
    have hregister' := congrArg Register.value
      (s.register_learn (fun m hm => hwrites m ((hmem m).mpr hm)) key)
    refine hregister.trans (Eq.trans ?_ hregister'.symm)
    refine Register.value_writes_congr (fun w => ?_) fun w hw w' hw' => writesOf_agree hslots hw hw'
    simp only [mem_writesOf, hmem]
  · ext key
    simp only [mem_getPaxosLogKeys_learn, hmem]
  · intro key
    ext r
    simp only [mem_rounds_learn, hmem]
  · intro key r
    by_cases hslot : ∃ m ∈ first, m.key = key ∧ m.acceptance.round = r
    · obtain ⟨m, hm, rfl, rfl⟩ := hslot
      have hsame : ∀ m' ∈ first, m'.key = m.key → m'.acceptance.round = m.acceptance.round →
          m'.acceptance = m.acceptance := fun m' hm' hkey hround => by
        rw [hslots m' hm' m hm hkey hround]
      rw [paxosLog_learn s first hsame,
        paxosLog_learn s second fun m' hm' => hsame m' ((hmem m').mpr hm')]
      simp only [hmem]
    · have hnone : ∀ m ∈ first, m.key = key → m.acceptance.round = r → m.acceptance = {} :=
        fun m hm hkey hround => absurd ⟨m, hm, hkey, hround⟩ hslot
      rw [paxosLog_learn s first hnone,
        paxosLog_learn s second fun m hm => hnone m ((hmem m).mpr hm)]
      simp only [hmem]

/-- The request with the highest round of its key decides the entry, unless a
higher round had been logged before. -/
theorem getValue_learn (hwrites : ∀ m ∈ first, m.Writes) (hslots : OnePerSlot first)
    {m : InformRequest} (hm : m ∈ first)
    (hlast : ∀ m' ∈ first, m'.key = m.key → m'.acceptance.round ≤ m.acceptance.round)
    (hlate : s.kvDb.rounds m.key = ∅ ∨ s.kvDb.latestRound m.key ≤ m.acceptance.round) :
    (s.learn first).kvDb.getValue m.key = m.written := by
  have hregister := congrArg Register.value (s.register_learn hwrites m.key)
  refine hregister.trans ?_
  have hw : (m.acceptance.round, m.written) ∈ writesOf m.key first :=
    mem_writesOf.mpr ⟨m, hm, rfl, rfl⟩
  apply Register.value_writes hw
  · intro w' hw'
    obtain ⟨m', hm', hkey, rfl⟩ := mem_writesOf.mp hw'
    exact hlast m' hm' hkey
  · intro w' hw' hstamp
    exact writesOf_agree hslots hw hw' hstamp
  · rintro ⟨r, hr, hlt⟩
    rcases hlate with hempty | hle
    · have hr' : r ∈ s.kvDb.rounds m.key := hr
      rw [hempty] at hr'
      exact Finset.notMem_empty r hr'
    · have hr' : r ≤ s.kvDb.latestRound m.key := KeyValueDataBase.le_latestRound hr
      have hlt' : m.acceptance.round < r := hlt
      omega

/-- Learning does not depend on the order or the repetition of the requests:
from one database any two deliveries of the same requests lead to the same
database, and from two databases to the same entries, wherever no round above
the highest of the requests was logged. -/
theorem learn_confluent {M : Finset InformRequest} (hwrites : ∀ m ∈ M, m.Writes)
    (hslots : ∀ m ∈ M, ∀ m' ∈ M, m.key = m'.key →
      m.acceptance.round = m'.acceptance.round → m = m')
    (hfirst : ∀ m, m ∈ first ↔ m ∈ M) (hsecond : ∀ m, m ∈ second ↔ m ∈ M)
    (s s' : MultiPaxosServiceImpl) :
    (s.learn first).kvDb.dataMap = (s.learn second).kvDb.dataMap ∧
      (s.learn first).kvDb.paxosLogsMap = (s.learn second).kvDb.paxosLogsMap ∧
      ∀ m ∈ M, (∀ m' ∈ M, m'.key = m.key → m'.acceptance.round ≤ m.acceptance.round) →
        (s.kvDb.rounds m.key = ∅ ∨ s.kvDb.latestRound m.key ≤ m.acceptance.round) →
        (s'.kvDb.rounds m.key = ∅ ∨ s'.kvDb.latestRound m.key ≤ m.acceptance.round) →
        (s.learn first).kvDb.getValue m.key = m.written ∧
          (s'.learn second).kvDb.getValue m.key = m.written := by
  have hall : ∀ {requests : List InformRequest}, (∀ m, m ∈ requests ↔ m ∈ M) →
      (∀ m ∈ requests, m.Writes) ∧ OnePerSlot requests := by
    intro requests hmem
    exact ⟨fun m hm => hwrites m ((hmem m).mp hm), fun m hm m' hm' =>
      hslots m ((hmem m).mp hm) m' ((hmem m').mp hm')⟩
  obtain ⟨hw, hs⟩ := hall hfirst
  obtain ⟨hw', hs'⟩ := hall hsecond
  have hdb : (s.learn first).kvDb = (s.learn second).kvDb :=
    kvDb_learn_congr (fun m => (hfirst m).trans (hsecond m).symm) hw hs
  refine ⟨by rw [hdb], by rw [hdb], fun m hm hlast hlate hlate' => ⟨?_, ?_⟩⟩
  · apply getValue_learn hw hs ((hfirst m).mpr hm) ?_ hlate
    exact fun m' hm' => hlast m' ((hfirst m').mp hm')
  · apply getValue_learn hw' hs' ((hsecond m).mpr hm) ?_ hlate'
    exact fun m' hm' => hlast m' ((hsecond m').mp hm')

/-- A `Set` of round 1 and a `Delete` of round 2 for one key. -/
def setThenDelete : List InformRequest := [⟨"k", 1, 1, .set, "x"⟩, ⟨"k", 2, 1, .delete, ""⟩]

/-- The two arrive in order, or the `Delete` arrives before and after the
`Set`.  The entry is deleted, also where an older entry was there before. -/
theorem learn_confluent_setThenDelete :
    ∃ s s' : MultiPaxosServiceImpl,
      (s.learn setThenDelete).kvDb.dataMap =
          (s.learn (⟨"k", 2, 1, .delete, ""⟩ :: setThenDelete)).kvDb.dataMap ∧
        s'.kvDb.getValue "k" = some "w" ∧
        (s'.learn (⟨"k", 2, 1, .delete, ""⟩ :: setThenDelete)).kvDb.getValue "k" = none := by
  have hconfluent := @learn_confluent setThenDelete
    (⟨"k", 2, 1, .delete, ""⟩ :: setThenDelete) setThenDelete.toFinset (by decide) (by decide)
    (by simp) (by simp [setThenDelete])
    { myPaxosAddress := "a", paxosStubsMap := { stubs := .empty } }
    { myPaxosAddress := "b", paxosStubsMap := { stubs := .empty },
      kvDb := { dataMap := (∅ : DataMap).insert "k" "w" } }
  refine ⟨{ myPaxosAddress := "a", paxosStubsMap := { stubs := .empty } },
    { myPaxosAddress := "b", paxosStubsMap := { stubs := .empty },
      kvDb := { dataMap := (∅ : DataMap).insert "k" "w" } }, hconfluent.1,
    by simp [KeyValueDataBase.getValue], ?_⟩
  exact (hconfluent.2.2 ⟨"k", 2, 1, .delete, ""⟩ (by decide) (by decide) (Or.inl (by simp))
    (Or.inl (by simp [KeyValueDataBase.rounds, KeyValueDataBase.logsOf]))).2

end MultiPaxosServiceImpl

end PaxosKVStore
