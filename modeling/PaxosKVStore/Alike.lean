import PaxosKVStore.MultiPaxosService

/-!
# Servers that answer alike

A handler reads the configured failure rate, the replica list and, of the
database, only what is stored under the key of its call.  Two servers that
agree on these give the same answer, and they agree afterwards, whatever else
they hold.

`AlikeAt key` is this relation.  The address of a server is not part of it,
because no handler reads it, and neither is the coordinator: `Inform` only
writes it.
-/

namespace PaxosKVStore

/-- The servers agree on what a call on `key` reads. -/
structure AlikeAt (key : String) (s t : MultiPaxosServiceImpl) : Prop where
  stubs : s.paxosStubsMap.stubs = t.paxosStubsMap.stubs
  failRate : s.failRate = t.failRate
  rounds : s.kvDb.rounds key = t.kvDb.rounds key
  log : ∀ r, s.kvDb.paxosLog key r = t.kvDb.paxosLog key r
  value : s.kvDb.getValue key = t.kvDb.getValue key

/-- The coordinators agree when the calls on the reserved key are looked at. -/
def CoordinatorsAlike (s t : MultiPaxosServiceImpl) : Prop :=
  s.paxosStubsMap.coordinator = t.paxosStubsMap.coordinator

namespace MultiPaxosServiceImpl

/-- No handler changes the failure rate. -/
theorem failRate_handle (s : MultiPaxosServiceImpl) (context : ServerContext)
    (randomFail : Bool) (msg : Message) :
    (s.handle context randomFail msg).2.failRate = s.failRate := by
  cases msg with
  | ping => rfl
  | prepare request =>
    simp only [handle, prepare]
    split <;> rfl
  | propose request =>
    simp only [handle, propose]
    split_ifs <;> rfl
  | inform request =>
    simp only [handle, inform]
    split_ifs
    · rfl
    · rfl
    · unfold execute
      split <;> rfl

end MultiPaxosServiceImpl

namespace AlikeAt

variable {key : String} {s s' t t' u : MultiPaxosServiceImpl} {msg : Message}

theorem refl (key : String) (s : MultiPaxosServiceImpl) : AlikeAt key s s :=
  ⟨rfl, rfl, rfl, fun _ => rfl, rfl⟩

theorem symm (h : AlikeAt key s t) : AlikeAt key t s :=
  ⟨h.stubs.symm, h.failRate.symm, h.rounds.symm, fun r => (h.log r).symm, h.value.symm⟩

theorem trans (h : AlikeAt key s t) (h' : AlikeAt key t u) : AlikeAt key s u where
  stubs := h.stubs.trans h'.stubs
  failRate := h.failRate.trans h'.failRate
  rounds := h.rounds.trans h'.rounds
  log r := (h.log r).trans (h'.log r)
  value := h.value.trans h'.value

/-- The next round of the key is the same. -/
theorem latestRound (h : AlikeAt key s t) : s.kvDb.latestRound key = t.kvDb.latestRound key :=
  KeyValueDataBase.latestRound_congr h.rounds

/-- Reading the latest round of any key changes nothing that a call reads. -/
theorem getLatestRound (s : MultiPaxosServiceImpl) (key key' : String) :
    AlikeAt key { s with kvDb := (s.kvDb.getLatestRound key').2 } s :=
  ⟨rfl, rfl, by simp [KeyValueDataBase.getLatestRound],
    fun r => by simp [KeyValueDataBase.getLatestRound], rfl⟩

/-- `Inform` compares with the same latest round. -/
theorem latestRound_addPaxosLogAccepted (h : AlikeAt key s t) (round acceptedId : Int)
    (acceptedType : OperationType) (acceptedValue : String) :
    (s.kvDb.addPaxosLogAccepted key round acceptedId acceptedType acceptedValue).latestRound
        key =
      (t.kvDb.addPaxosLogAccepted key round acceptedId acceptedType acceptedValue).latestRound
        key := by
  apply KeyValueDataBase.latestRound_congr
  rw [KeyValueDataBase.addPaxosLogAccepted, KeyValueDataBase.addPaxosLogAccepted,
    KeyValueDataBase.rounds_updateLog, KeyValueDataBase.rounds_updateLog, h.rounds]

/-- A call on the key gets the same answer. -/
theorem answer (h : AlikeAt key s t) (hslot : ∀ slot ∈ msg.slot, slot.1 = key)
    (context : ServerContext) (randomFail : Bool) :
    (s.handle context randomFail msg).1 = (t.handle context randomFail msg).1 := by
  cases msg with
  | ping => rfl
  | prepare request =>
    have hkey : request.key = key := hslot _ rfl
    simp only [MultiPaxosServiceImpl.handle, MultiPaxosServiceImpl.prepare,
      KeyValueDataBase.getPaxosLog, KeyValueDataBase.paxosLog_addPaxosLog, hkey, h.log,
      h.failRate]
    split <;> rfl
  | propose request =>
    have hkey : request.key = key := hslot _ rfl
    simp only [MultiPaxosServiceImpl.handle, MultiPaxosServiceImpl.propose,
      KeyValueDataBase.getPaxosLog, hkey, h.log, h.failRate]
    split_ifs <;> rfl
  | inform request =>
    have hkey : request.key = key := hslot _ rfl
    simp only [MultiPaxosServiceImpl.handle, MultiPaxosServiceImpl.inform,
      KeyValueDataBase.getLatestRound, hkey, h.latestRound_addPaxosLogAccepted]
    split_ifs <;> rfl

/-- Servers that gave the same answer to a call, on whatever key, agree
afterwards where they agreed before. -/
theorem handled {reply : Reply} (h : AlikeAt key s t) (hs : Handled s s' msg reply)
    (ht : Handled t t' msg reply) (hrate : s'.failRate = t'.failRate) : AlikeAt key s' t' where
  stubs := by rw [hs.stubs, ht.stubs, h.stubs]
  failRate := hrate
  rounds := by
    ext r
    rw [hs.rounds, ht.rounds, h.rounds]
  log r := by rw [hs.log, ht.log, h.log]
  value := by rw [hs.value, ht.value, h.value]

/-- The same call leaves servers alike that answered it alike. -/
theorem handle (h : AlikeAt key s t) {context : ServerContext} {randomFail : Bool}
    (hanswer : (s.handle context randomFail msg).1 = (t.handle context randomFail msg).1) :
    AlikeAt key (s.handle context randomFail msg).2 (t.handle context randomFail msg).2 := by
  have hs := s.handle_handled randomFail context msg
  have ht := t.handle_handled randomFail context msg
  rw [← hanswer] at ht
  apply h.handled hs ht
  rw [s.failRate_handle, t.failRate_handle, h.failRate]

/-- A call on another key leaves a server alike to what it was. -/
theorem handle_other (s : MultiPaxosServiceImpl) (hslot : ∀ slot ∈ msg.slot, slot.1 ≠ key)
    (context : ServerContext) (randomFail : Bool) :
    AlikeAt key (s.handle context randomFail msg).2 s := by
  have hs := s.handle_handled randomFail context msg
  obtain ⟨hrounds, hlog, hvalue⟩ := hs.frame hslot
  exact ⟨hs.stubs, s.failRate_handle _ _ _, hrounds, hlog, hvalue⟩

/-- The same call leaves the same coordinator behind. -/
theorem coordinator_handle (hstubs : s.paxosStubsMap.stubs = t.paxosStubsMap.stubs)
    (hcoordinator : CoordinatorsAlike s t) {context : ServerContext} {randomFail : Bool}
    (hanswer : (s.handle context randomFail msg).1 = (t.handle context randomFail msg).1) :
    CoordinatorsAlike (s.handle context randomFail msg).2
      (t.handle context randomFail msg).2 := by
  have hs := s.handle_handled randomFail context msg
  have ht := t.handle_handled randomFail context msg
  rw [← hanswer] at ht
  rw [CoordinatorsAlike] at hcoordinator ⊢
  rw [hs.coordinator, ht.coordinator, hstubs, hcoordinator]

end AlikeAt

end PaxosKVStore
