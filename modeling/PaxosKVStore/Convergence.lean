import PaxosKVStore.Agreement
import PaxosKVStore.AtomicMap
import PaxosKVStore.Overtaking

/-!
# Convergence of the replicas

A replica executes the operations of a key in the order of their rounds, so
its entry is what the newest of them leaves.  All replicas hold the same
entries once no invocation is running, if two things hold: the newest
operation is the same at all of them, which is agreement on its round, and
all of them have executed it, so nothing overtook the last committed
invocation of the key.

Neither is given.  Two overlapping requests on the same coordinator already
choose one round and inform of different operations, and `Inform` executes an
equal round again.
-/

namespace PaxosKVStore

/-- A list that does not increase starts with a greatest element. -/
theorem exists_newest {α : Type} {f : α → Int} {entries : List α}
    (hordered : entries.Pairwise fun newer older => f older ≤ f newer) {x : α}
    (hx : x ∈ entries) (hmax : ∀ y ∈ entries, f y ≤ f x) :
    ∃ newest older, entries = newest :: older ∧ f newest = f x := by
  cases entries with
  | nil => cases hx
  | cons newest older =>
    refine ⟨newest, older, rfl, le_antisymm (hmax newest List.mem_cons_self) ?_⟩
    rcases List.mem_cons.mp hx with rfl | hx
    · exact le_rfl
    · exact (List.pairwise_cons.mp hordered).1 x hx

namespace System

/-- `PutPair` and `DeletePair` requests reach `C`, and no other request
reaches any server. -/
def WrittenAt (C : Addr) : Action → Prop
  | .start server request _ => server = C ∧ request.IsUpdate
  | _ => True

instance (C : Addr) (act : Action) : Decidable (WrittenAt C act) :=
  match act with
  | .start server request _ => inferInstanceAs (Decidable (server = C ∧ request.IsUpdate))
  | .call .. => isTrue trivial
  | .advance _ => isTrue trivial
  | .arrive .. => isTrue trivial

/-- The replicas hold the same data map. -/
def Converged (stubs : PaxosStubs) (σ : System) : Prop :=
  ∀ a ∈ stubs.addrs, ∀ b ∈ stubs.addrs, (σ.db a).dataMap = (σ.db b).dataMap

/-- One coordinator writes, and every call is delivered. -/
def WritesDelivered (C : Addr) (σ : System) (act : Action) : Prop :=
  Delivered σ act ∧ WrittenAt C act

instance (C : Addr) (σ : System) (act : Action) : Decidable (WritesDelivered C σ act) :=
  inferInstanceAs (Decidable (_ ∧ _))

/-- One coordinator writes, every call is delivered, and the acceptors keep
their promises. -/
def WritesAgreeable (C : Addr) (σ : System) (act : Action) : Prop :=
  Agreeable σ act ∧ WrittenAt C act

instance (C : Addr) (σ : System) (act : Action) : Decidable (WritesAgreeable C σ act) :=
  inferInstanceAs (Decidable (_ ∧ _))

/-- Every invocation runs a write. -/
def RunsUpdates (σ : System) : Prop :=
  ∀ (i : Nat) (inv : Invocation), σ.runs[i]? = some inv → inv.request.IsUpdate

theorem runsUpdates_of_reachable {setup : System → Prop} {C : Addr}
    {D : System → Action → Prop} {σ : System} (hD : ∀ σ act, D σ act → WrittenAt C act)
    (h : (paxos setup).Reachable D σ) : RunsUpdates σ := by
  refine ActionSystem.Reachable.invariant ?_ ?_ h
  · intro σ hinit i inv hi
    simp [hinit.1.runs] at hi
  · intro σ act σ' hreach hcond hstep hupdates i inv hi
    rcases step_runs_back (provenance_of_reachable hreach).wf (step_cases hstep) hi with
      ⟨inv0, hi0, hev⟩ | ⟨server, request, context, rfl, _, _, rfl⟩
    · rw [hev.request]
      exact hupdates i inv0 hi0
    · exact (hD _ _ hcond).2

section Quiescent

variable {C : Addr} {stubs : PaxosStubs} {σ : System}

/-- Without a committed invocation on its key there is nothing to execute. -/
theorem Provenance.learned_eq_nil (hprov : Provenance σ) {key : String}
    (hnone : ∀ inv ∈ σ.runs, inv.key = key → ¬ inv.Committed) (a : Addr) :
    σ.learned a key = [] := by
  rw [List.eq_nil_iff_forall_not_mem]
  rintro ⟨i, request⟩ hentry
  obtain ⟨inv, hi, hcommitted, hkey, _⟩ := hprov.learned_from hentry
  exact hnone inv (List.mem_of_getElem? hi) hkey hcommitted

/-- What a replica has executed was sent to it. -/
theorem Provenance.sent_of_learned (hprov : Provenance σ) {a : Addr} {key : String} {i : Nat}
    {request : InformRequest} (h : (i, request) ∈ σ.learned a key) :
    .sent i a (.inform request) ∈ σ.history ∧ request.key = key := by
  obtain ⟨e, he, hlearned⟩ := List.mem_filterMap.mp h
  obtain ⟨reply, changed, rfl, hkey, _⟩ := Event.handled_of_learned hlearned
  exact ⟨hprov.handled i a _ reply changed he, hkey⟩

/-- The entry of a replica is the outcome of the newest operation. -/
theorem value_of_newest (hprov : Provenance σ) (hreplays : Replays σ)
    (hupdates : RunsUpdates σ) {a : Addr} {key : String} {newest : Nat × InformRequest}
    {older : List (Nat × InformRequest)} (hlearned : σ.learned a key = newest :: older)
    (before : Option String) :
    (σ.db a).getValue key = newest.2.acceptance.operation.effect before := by
  obtain ⟨hsent, _⟩ := hprov.sent_of_learned (show newest ∈ σ.learned a key by simp [hlearned])
  obtain ⟨j, inv, hj, _, _, _, _, hop⟩ := hprov.inform_from hsent
  have hupdate := hupdates j inv hj
  rw [hreplays.value, hlearned]
  show newest.2.acceptance.operation.effect (replayValue older) = _
  rw [hop, hupdate.effect, hupdate.effect]

/-- Once nothing runs any more, the newest operation that a replica executed
is one of the last round that committed. -/
theorem exists_newest_learned
    (h : (paxos (SharesReplicas stubs)).Reachable (WritesAgreeable C) σ)
    (hidle : ∀ inv ∈ σ.runs, ¬ inv.Active) (hfree : LastNotOvertaken σ) {j : Nat}
    {last : Invocation} (hj : σ.runs[j]? = some last) (hcommitted : last.Committed)
    (hlast : σ.Last last) {a : Addr} (ha : a ∈ stubs.addrs) :
    ∃ newest older, σ.learned a last.key = newest :: older ∧
      newest.2.acceptance.round = last.round := by
  have hD : ∀ σ act, WritesAgreeable C σ act → Delivered σ act := fun _ _ hcond => hcond.1.1
  have hprov := provenance_of_reachable h
  have hwf := hprov.wf j last hj
  have hround : last.informReq.acceptance.round = last.round := by
    rw [Invocation.informReq, (hwf.committed hcommitted).2.2, Invocation.acceptanceOf]
  have hlive : a ∈ last.livePaxosStubs := by
    rw [((lossless_of_reachable hD h).sees j last hj).live (hwf.proposed_of_committed hcommitted)]
    exact ha
  have hreturned := returned_of_committed hcommitted (hidle last (List.mem_of_getElem? hj))
  have hinformed := informed_of_returned (informsLive_of_reachable hD h) hj hreturned hlive
  have hexecuted := (informsInOrder_of_reachable hD h).executedAt hinformed
    (hfree j last hj hcommitted hlast)
  -- the executed operations of all other invocations have at most its round
  have hmax : ∀ entry ∈ σ.learned a last.key,
      entry.2.acceptance.round ≤ last.informReq.acceptance.round := by
    rintro ⟨i, request⟩ hentry
    obtain ⟨inv, hi, hc, hkey, hacceptance⟩ := hprov.learned_from hentry
    rw [hround, hacceptance]
    by_contra hlt
    exact Invocation.not_failed_of_committed hc
      (hlast inv (List.mem_of_getElem? hi) hkey (not_le.mp hlt))
  obtain ⟨newest, older, hlearned, heq⟩ :=
    exists_newest ((replays_of_reachable h).ordered a last.key) hexecuted hmax
  exact ⟨newest, older, hlearned, heq.trans hround⟩

/-- In every run of writes at one coordinator that delivers its calls and
keeps the promises, the replicas have converged whenever no invocation is
running and no last committed invocation of a key was overtaken. -/
theorem converged_of_reachable
    (h : (paxos (SharesReplicas stubs)).Reachable (WritesAgreeable C) σ)
    (hidle : ∀ inv ∈ σ.runs, ¬ inv.Active) (hfree : LastNotOvertaken σ) :
    Converged stubs σ := by
  have hprov := provenance_of_reachable h
  have hreplays := replays_of_reachable h
  have hupdates := runsUpdates_of_reachable (fun _ _ hcond => hcond.2) h
  have hagree := informsAgree_of_reachable (h.mono fun _ _ hcond => hcond.1)
  intro a ha b hb
  refine KeyValueDataBase.dataMap_ext fun key => ?_
  by_cases hsome : ∃ inv ∈ σ.runs, inv.key = key ∧ inv.Committed
  · obtain ⟨inv, hmem, hkey, hcommitted⟩ := hsome
    obtain ⟨last, hlastmem, hkey', _, hnot, hlast⟩ :=
      exists_last hmem (Invocation.not_failed_of_committed hcommitted)
    obtain rfl : last.key = key := hkey'.trans hkey
    have hcommitted' := (committed_or_active hnot).resolve_right (hidle last hlastmem)
    obtain ⟨j, hj⟩ := List.getElem?_of_mem hlastmem
    obtain ⟨newest, older, hlearned, hround⟩ :=
      exists_newest_learned h hidle hfree hj hcommitted' hlast ha
    obtain ⟨newest', older', hlearned', hround'⟩ :=
      exists_newest_learned h hidle hfree hj hcommitted' hlast hb
    -- both replicas executed an operation of the last round, and there is one
    obtain ⟨hsent, hk⟩ := hprov.sent_of_learned
      (show newest ∈ σ.learned a last.key by simp [hlearned])
    obtain ⟨hsent', hk'⟩ := hprov.sent_of_learned
      (show newest' ∈ σ.learned b last.key by simp [hlearned'])
    obtain ⟨htype, hvalue⟩ := hagree _ _ _ _ _ _ hsent hsent' (hk.trans hk'.symm)
      (hround.trans hround'.symm)
    have hop : newest.2.acceptance.operation = newest'.2.acceptance.operation := by
      rw [AcceptResponse.operation, AcceptResponse.operation, htype, hvalue]
    rw [value_of_newest hprov hreplays hupdates hlearned none,
      value_of_newest hprov hreplays hupdates hlearned' none, hop]
  · have hnone : ∀ inv ∈ σ.runs, inv.key = key → ¬ inv.Committed :=
      fun inv hmem hkey hcommitted => hsome ⟨inv, hmem, hkey, hcommitted⟩
    rw [hreplays.value, hreplays.value, hprov.learned_eq_nil hnone, hprov.learned_eq_nil hnone]

end Quiescent

/-- Two requests overlap on the coordinator `a`, with one round.  The `Inform`
of the first reaches `a` before that of the second, and `b` and `c` after it. -/
def crossingInforms : List Action :=
  [.start "a" (.put "k" "x"), .start "a" (.put "k" "y")] ++
    Action.loop 0 3 ++ Action.loop 1 3 ++ Action.loop 0 3 ++ Action.loop 1 3 ++
    Action.loop 0 3 ++ Action.loop 1 3 ++ Action.calls 0 1 ++ Action.loop 1 3 ++
    Action.loop 0 2

set_option maxRecDepth 10000 in
/-- Both have returned OK, and `a` and `b` hold different values. -/
theorem not_converged_crossingInforms :
    ∃ σ, (paxos (SharesReplicas (.ofReplicas ["a", "b", "c"]))).Reachable
        (WritesDelivered "a") σ ∧
      (∀ inv ∈ σ.runs, ¬ inv.Active) ∧ ¬ Converged (.ofReplicas ["a", "b", "c"]) σ := by
  have hrun : ∃ σ ∈ (paxos (SharesReplicas (.ofReplicas ["a", "b", "c"]))).execWhere
      (WritesDelivered "a") (fresh ["a", "b", "c"]) crossingInforms,
      (∀ inv ∈ σ.runs, ¬ inv.Active) ∧ (σ.db "a").getValue "k" = some "y" ∧
        (σ.db "b").getValue "k" = some "x" := by
    decide +kernel
  obtain ⟨σ, hreach, hidle, ha, hb⟩ := exists_reachable_fresh hrun
  refine ⟨σ, hreach, hidle, fun hconverged => ?_⟩
  have hsame := hconverged "a" (by decide) "b" (by decide)
  rw [KeyValueDataBase.getValue, hsame] at ha
  rw [KeyValueDataBase.getValue, ha] at hb
  exact absurd hb (by decide)

/-- The same two requests, where the second prepares after the first has
proposed. -/
def followingInforms : List Action :=
  [.start "a" (.put "k" "x"), .start "a" (.put "k" "y")] ++
    Action.loop 0 3 ++ Action.loop 1 3 ++ Action.loop 0 3 ++ Action.loop 0 3 ++
    Action.loop 1 3 ++ Action.loop 1 3 ++ Action.calls 0 1 ++ Action.loop 1 3 ++
    Action.loop 0 2

set_option maxRecDepth 10000 in
/-- There the replicas converge. -/
theorem converged_followingInforms :
    ∃ σ : System, (σ.db "b").getValue "k" = some "x" ∧
      Converged (.ofReplicas ["a", "b", "c"]) σ := by
  have hrun : ∃ σ ∈ (paxos (SharesReplicas (.ofReplicas ["a", "b", "c"]))).execWhere
      (WritesAgreeable "a") (fresh ["a", "b", "c"]) followingInforms,
      (σ.db "b").getValue "k" = some "x" ∧ (∀ inv ∈ σ.runs, ¬ inv.Active) ∧
        ∀ i < σ.runs.length, ∀ inv ∈ σ.runs[i]?, inv.Committed → σ.Last inv →
          ¬ σ.Overtaken i := by
    decide +kernel
  obtain ⟨σ, hreach, hb, hidle, hfree⟩ := exists_reachable_fresh hrun
  refine ⟨σ, hb, converged_of_reachable hreach hidle ?_⟩
  intro i inv hi
  exact hfree i (List.getElem?_eq_some_iff.mp hi).1 inv hi

end System

end PaxosKVStore
