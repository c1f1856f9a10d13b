import PaxosKVStore.History

/-!
# The atomic map

What the store is for, without replicas: a map from keys to values that
requests overwrite one at a time.  The coordinator is an entry of it, under
the reserved key, so an election is an update like the others.

`acknowledged` is the map that the requests answered OK leave, in the order
of their answers, and `image` is what one server holds.  The refinement
theorems compare the two.
-/

namespace PaxosKVStore

/-- The abstract store. -/
abbrev AtomicMap := String → Option String

/-- What a request leaves under its key. -/
def Request.outcome : Request → Option String
  | .put _ value => some value
  | .delete _ => none
  | .electCoordinator _ coordinator => some coordinator

/-- A write leaves its outcome, whatever was there before. -/
theorem Request.IsUpdate.effect {request : Request} (h : request.IsUpdate)
    (before : Option String) : request.setProposeValue.effect before = request.outcome := by
  cases request with
  | put key value => rfl
  | delete key => rfl
  | electCoordinator key coordinator => exact h.elim

namespace AtomicMap

/-- The store at start-up: no value, and an empty coordinator. -/
def initial : AtomicMap := fun key => if key = "coordinator" then some "" else none

/-- Perform one request. -/
def apply (map : AtomicMap) (request : Request) : AtomicMap :=
  Function.update map request.key request.outcome

theorem apply_self (map : AtomicMap) (request : Request) :
    map.apply request request.key = request.outcome :=
  Function.update_self ..

theorem apply_of_ne (map : AtomicMap) {request : Request} {key : String}
    (h : request.key ≠ key) : map.apply request key = map key :=
  Function.update_of_ne (Ne.symm h) ..

end AtomicMap

/-- The map that the requests answered OK leave.  The newest event is the
head of the history. -/
def acknowledged : List Event → AtomicMap
  | [] => .initial
  | .returned _ request status :: older =>
      if status.ok then (acknowledged older).apply request else acknowledged older
  | .refused .. :: older => acknowledged older
  | .sent .. :: older => acknowledged older
  | .handled .. :: older => acknowledged older

namespace MultiPaxosServiceImpl

/-- What a server holds: its data map, and its coordinator under the reserved
key. -/
def image (s : MultiPaxosServiceImpl) : AtomicMap := fun key =>
  if key = "coordinator" then some s.paxosStubsMap.coordinator else s.kvDb.getValue key

end MultiPaxosServiceImpl

/-- The request is one that `RunPaxos` is entered with: client requests avoid
the reserved key, and elections use it and nominate a listed address. -/
def Request.Sound (listed : List Addr) : Request → Prop
  | .put key _ => key ≠ "coordinator"
  | .delete key => key ≠ "coordinator"
  | .electCoordinator key coordinator => key = "coordinator" ∧ coordinator ∈ listed

namespace Handled

variable {s s' : MultiPaxosServiceImpl} {msg : Message} {reply : Reply}

/-- A call that executes nothing leaves the image. -/
theorem image_eq (h : Handled s s' msg reply) (hexecuted : msg.executed reply = none) :
    s'.image = s.image := by
  funext key
  have hvalue := h.value key
  have hcoordinator := h.coordinator
  rw [hexecuted] at hvalue hcoordinator
  simp only at hvalue hcoordinator
  rw [MultiPaxosServiceImpl.image, MultiPaxosServiceImpl.image, hvalue, hcoordinator]

/-- An operation leaves the image of the other keys, if only the reserved key
has elections. -/
theorem image_of_ne (h : Handled s s' msg reply) {key key' : String} {op : Operation}
    (hexecuted : msg.executed reply = some (key', op))
    (hop : op.type = .setCoordinator → key' = "coordinator") (hne : key' ≠ key) :
    s'.image key = s.image key := by
  have hvalue := h.value key
  have hcoordinator := h.coordinator
  rw [hexecuted] at hvalue hcoordinator
  simp only at hvalue hcoordinator
  unfold MultiPaxosServiceImpl.image
  split
  · rename_i hkey
    rw [hcoordinator, if_neg]
    rintro ⟨htype, _⟩
    exact hne ((hop htype).trans hkey.symm)
  · rw [hvalue, if_neg (Ne.symm hne)]

/-- A sound request that is executed leaves its outcome under its key. -/
theorem image_request (h : Handled s s' msg reply) {request : Request}
    (hexecuted : msg.executed reply = some (request.key, request.setProposeValue))
    (hsound : request.Sound s.paxosStubsMap.stubs.addrs) :
    s'.image request.key = request.outcome := by
  have hvalue := h.value request.key
  have hcoordinator := h.coordinator
  rw [hexecuted] at hvalue hcoordinator
  simp only [if_true] at hvalue hcoordinator
  unfold MultiPaxosServiceImpl.image
  cases request with
  | put key value => rw [if_neg (by exact hsound), hvalue]; rfl
  | delete key => rw [if_neg (by exact hsound), hvalue]; rfl
  | electCoordinator key coordinator =>
    rw [if_pos (by exact hsound.1), hcoordinator, if_pos ⟨rfl, hsound.2⟩]
    rfl

end Handled

theorem Unchanged.image_eq {s s' : MultiPaxosServiceImpl} (h : Unchanged s s') :
    s'.image = s.image :=
  Handled.image_eq h rfl

end PaxosKVStore
