import PaxosKVStore.AtomicMap
import PaxosKVStore.Lib.Linearizability
import PaxosKVStore.RequestFlow

/-!
# What the clients are promised

`store` is the atomic map as a sequential object: an update that is answered
OK takes effect, a request that is answered with an error has none, and a GET
reports the entry.  It says nothing about servers.  The theorems about the
requests of clients compare what the servers answer with this object.
-/

namespace PaxosKVStore

open Linearizability

/-- What a client is told about its request. -/
structure Told where
  code : StatusCode
  value : String := ""
  deriving DecidableEq, Repr

/-- The request of a client that an invocation runs for. -/
def Request.client : Request → Option ClientRequest
  | .put key value => some (.put key value)
  | .delete key => some (.delete key)
  | .electCoordinator _ _ => none

theorem Request.update_of_client {request : Request} {asked : ClientRequest}
    (h : request.client = some asked) : asked.update = some request := by
  cases request with
  | put key value =>
    cases h
    rfl
  | delete key =>
    cases h
    rfl
  | electCoordinator key coordinator => cases h

theorem Request.key_of_client {request : Request} {asked : ClientRequest}
    (h : request.client = some asked) : asked.key = request.key := by
  cases request <;> cases h <;> rfl

namespace Store

/-- One request of a client to the atomic map. -/
inductive Allows (map : AtomicMap) : ClientRequest → Told → AtomicMap → Prop where
  | done {request : ClientRequest} {update : Request} (hupdate : request.update = some update)
      (hkey : request.key ≠ "coordinator") :
      Allows map request { code := .ok } (map.apply update)
  | failed (request : ClientRequest) {code : StatusCode} (hok : code ≠ .ok)
      (hfound : code ≠ .notFound) : Allows map request { code := code } map
  | found {key value : String} (hkey : key ≠ "coordinator") (hentry : map key = some value) :
      Allows map (.get key) { code := .ok, value := value } map
  | missing {key : String} (hkey : key ≠ "coordinator") (hentry : map key = none) :
      Allows map (.get key) { code := .notFound } map

end Store

/-- The store without replicas. -/
def store : SequentialObject AtomicMap ClientRequest Told where
  initial := .initial
  allows := Store.Allows

/-- What the handler of a GET answers, the store allows, if the server holds
the entries of the map. -/
theorem Store.allows_getValue {map : AtomicMap} {s : MultiPaxosServiceImpl}
    (hmap : ∀ key, key ≠ "coordinator" → map key = s.kvDb.getValue key) (context : ServerContext)
    (key : String) : Store.Allows map (.get key)
      { code := (s.getValue context { key := key }).1.code
        value := (s.getValue context { key := key }).2.value } map := by
  unfold MultiPaxosServiceImpl.getValue
  by_cases hcancelled : context.isCancelled = true
  · simp only [if_pos hcancelled]
    exact .failed _ (by decide) (by decide)
  · by_cases hkey : key = "coordinator"
    · simp only [if_neg hcancelled, if_pos hkey]
      exact .failed _ (by decide) (by decide)
    · simp only [if_neg hcancelled, if_neg hkey]
      have hentry := hmap key hkey
      cases hvalue : s.kvDb.getValue key with
      | none => exact .missing hkey (hentry.trans hvalue)
      | some value => exact .found hkey (hentry.trans hvalue)

end PaxosKVStore
