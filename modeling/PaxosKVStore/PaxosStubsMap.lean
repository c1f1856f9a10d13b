import Mathlib.Data.List.Sort
import Mathlib.Data.String.Basic
import PaxosKVStore.Proto

/-!
# The stubs map of a server

A server keeps one stub for each replica address of its configuration in a
`std::map`, and the address of the coordinator next to it.  A stub is
identified with the address it calls, so the map is the list of its keys in
the order in which a loop over it visits them.  `PaxosStubs` carries the proof
of that order, and with it that no address occurs twice.
-/

namespace PaxosKVStore

/-- `std::map<std::string, std::unique_ptr<MultiPaxos::Stub>>`. -/
structure PaxosStubs where
  addrs : List Addr
  sorted : addrs.Pairwise (· < ·)

namespace PaxosStubs

/-- The map without a stub. -/
def empty : PaxosStubs := { addrs := [], sorted := .nil }

theorem pairwise_orderedInsert {addr : Addr} {addrs : List Addr}
    (hsorted : addrs.Pairwise (· < ·)) (hnew : addr ∉ addrs) :
    (addrs.orderedInsert (· ≤ ·) addr).Pairwise (· < ·) := by
  induction addrs with
  | nil => simp
  | cons head rest ih =>
    rw [List.mem_cons, not_or] at hnew
    rw [List.pairwise_cons] at hsorted
    rw [List.orderedInsert_cons]
    split
    · rename_i hle
      have hlt : addr < head := lt_of_le_of_ne hle hnew.1
      refine List.pairwise_cons.mpr ⟨?_, List.pairwise_cons.mpr hsorted⟩
      intro b hb
      rcases List.mem_cons.mp hb with rfl | hb
      · exact hlt
      · exact hlt.trans (hsorted.1 b hb)
    · rename_i hle
      refine List.pairwise_cons.mpr ⟨?_, ih hsorted.2 hnew.2⟩
      intro b hb
      rcases (List.mem_orderedInsert _).mp hb with rfl | hb
      · exact not_le.mp hle
      · exact hsorted.1 b hb

/-- `stubs[addr] = ...` in the loop of `main`. -/
def insert (stubs : PaxosStubs) (addr : Addr) : PaxosStubs :=
  if h : addr ∈ stubs.addrs then stubs
  else
    { addrs := stubs.addrs.orderedInsert (· ≤ ·) addr
      sorted := pairwise_orderedInsert stubs.sorted h }

/-- The stubs of the `replica` fields of a server configuration. -/
def ofReplicas (replicas : List Addr) : PaxosStubs :=
  replicas.foldl insert empty

theorem mem_insert {stubs : PaxosStubs} {addr a : Addr} :
    a ∈ (stubs.insert addr).addrs ↔ a = addr ∨ a ∈ stubs.addrs := by
  unfold insert
  split
  · rename_i h
    exact ⟨Or.inr, fun ha => ha.elim (fun heq => heq ▸ h) id⟩
  · exact List.mem_orderedInsert _

theorem mem_ofReplicas {replicas : List Addr} {a : Addr} :
    a ∈ (ofReplicas replicas).addrs ↔ a ∈ replicas := by
  have hfold : ∀ stubs : PaxosStubs,
      a ∈ (replicas.foldl insert stubs).addrs ↔ a ∈ replicas ∨ a ∈ stubs.addrs := by
    induction replicas with
    | nil => simp
    | cons first rest ih =>
      intro stubs
      rw [List.foldl_cons, ih, mem_insert, List.mem_cons]
      tauto
  rw [ofReplicas, hfold empty]
  exact or_iff_left List.not_mem_nil

theorem nodup (stubs : PaxosStubs) : stubs.addrs.Nodup :=
  stubs.sorted.imp fun h => ne_of_lt h

end PaxosStubs

/-- The class of that name: the stubs and the coordinator. -/
structure PaxosStubsMap where
  stubs : PaxosStubs
  coordinator : Addr := ""

namespace PaxosStubsMap

def getCoordinator (map : PaxosStubsMap) : Addr := map.coordinator

/-- `SetCoordinator` refuses an address without a stub. -/
def setCoordinator (map : PaxosStubsMap) (coordinator : Addr) : Bool × PaxosStubsMap :=
  if coordinator ∈ map.stubs.addrs then (true, { map with coordinator := coordinator })
  else (false, map)

/-- `GetCoordinatorStub`, with `none` for the null pointer. -/
def getCoordinatorStub (map : PaxosStubsMap) : Option Addr :=
  if map.coordinator ∈ map.stubs.addrs then some map.coordinator else none

/-- `GetStub`, with `none` for the null pointer. -/
def getStub (map : PaxosStubsMap) (address : Addr) : Option Addr :=
  if address = "" ∨ address ∉ map.stubs.addrs then none else some address

/-- `GetPaxosStubs`: the addresses in the order of the map. -/
def getPaxosStubs (map : PaxosStubsMap) : List Addr := map.stubs.addrs

theorem getPaxosStubs_nodup (map : PaxosStubsMap) : map.getPaxosStubs.Nodup :=
  map.stubs.nodup

@[simp] theorem stubs_setCoordinator (map : PaxosStubsMap) (coordinator : Addr) :
    (map.setCoordinator coordinator).2.stubs = map.stubs := by
  unfold setCoordinator
  split <;> rfl

/-- A listed address becomes the coordinator, and another one changes nothing. -/
theorem coordinator_setCoordinator (map : PaxosStubsMap) (coordinator : Addr) :
    (map.setCoordinator coordinator).2.coordinator =
      if coordinator ∈ map.stubs.addrs then coordinator else map.coordinator := by
  unfold setCoordinator
  split <;> rfl

end PaxosStubsMap

end PaxosKVStore
