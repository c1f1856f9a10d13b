import PaxosKVStore.Delivery

/-!
# Which quorums intersect

The majority that `RunPaxos` asks for is taken of the replicas that answered
its `Ping`, as the documentation says.  Two invocations can therefore both
return OK without a common acceptor, for example on the two sides of a
partition.

What holds under any behaviour of the network is stated by
`acceptors_of_returned_ok`: each of them was accepted by a majority of its
own live set, and the two share an acceptor as soon as the two smallest
majorities do not fit side by side into the union of the live sets.
-/

namespace PaxosKVStore

open Majority

/-- The replica that answers OK to a `Propose` of the invocation `run` in this
event. -/
def Event.acceptor (run : Nat) : Event → Option Addr
  | .handled i receiver _ (.propose status _) _ =>
      if i = run ∧ status.ok = true then some receiver else none
  | _ => none

namespace System

/-- The replicas that answered OK to the `Propose` calls of `run`. -/
def acceptors (σ : System) (run : Nat) : List Addr :=
  σ.history.filterMap (Event.acceptor run)

/-- Every counted acceptance is in the history. -/
def AcceptancesHandled (σ : System) : Prop :=
  ∀ (i : Nat) (inv : Invocation), σ.runs[i]? = some inv →
    ∀ a ∈ inv.acceptedBy, a ∈ σ.acceptors i

/-- The list of acceptors only grows. -/
theorem mem_acceptors_of_suffix {σ σ' : System} {new : List Event}
    (hhistory : σ'.history = new ++ σ.history) {i : Nat} {a : Addr}
    (h : a ∈ σ.acceptors i) : a ∈ σ'.acceptors i := by
  rw [acceptors, hhistory, List.filterMap_append]
  exact List.mem_append_right _ h

theorem acceptancesHandled_step {σ σ' : System} {act : Action} (hprov : Provenance σ)
    (h : AcceptancesHandled σ) (hstep : StepCases σ act σ') : AcceptancesHandled σ' := by
  have hgrow : ∀ (i : Nat) (a : Addr), a ∈ σ.acceptors i → a ∈ σ'.acceptors i := by
    intro i a ha
    obtain ⟨new, hhistory⟩ := (step_effect hstep).suffix
    exact mem_acceptors_of_suffix hhistory ha
  cases hstep with
  | refuse hrefusal => exact fun i inv hi a ha => hgrow i a (h i inv hi a ha)
  | enter hrefusal =>
    intro i inv hi a ha
    rcases getElem?_snoc_cases hi with ⟨_, rfl⟩ | hi
    · cases ha
    · exact hgrow i a (h i inv hi a ha)
  | @call run inv0 receiver msg fate randomFail hrun hcall =>
    intro i inv hi a ha
    by_cases hfate : fate = .delivered
    · subst hfate
      obtain ⟨reply, inv1, hdelivers, hruns, hhistory, _⟩ :=
        call_delivered hprov hrun hcall randomFail
      rw [hruns] at hi
      rcases getElem?_set_cases hrun hi with ⟨rfl, rfl⟩ | ⟨_, hi⟩
      · cases hdelivers with
        | accept hphase hok =>
          rcases List.mem_append.mp ha with ha | ha
          · exact hgrow i a (h i inv0 hrun a ha)
          · rw [List.mem_singleton] at ha
            subst ha
            rw [acceptors, hhistory]
            exact List.mem_filterMap.mpr ⟨_, List.mem_cons_self, by simp [Event.acceptor, hok]⟩
        | _ => exact hgrow i a (h i inv0 hrun a ha)
      · exact hgrow i a (h i inv hi a ha)
    · rw [(call_lost hfate).1] at hi
      rcases getElem?_set_cases hrun hi with ⟨rfl, rfl⟩ | ⟨_, hi⟩
      · exact hgrow i a (h i inv0 hrun a ha)
      · exact hgrow i a (h i inv hi a ha)
  | @advance run inv0 inv1 hrun hadvance =>
    intro i inv hi a ha
    rw [noteReturn_runs] at hi
    rcases getElem?_set_cases hrun hi with ⟨rfl, rfl⟩ | ⟨_, hi⟩
    · have hsame : inv.acceptedBy = inv0.acceptedBy := by cases hadvance <;> rfl
      rw [hsame] at ha
      exact hgrow i a (h i inv0 hrun a ha)
    · exact hgrow i a (h i inv hi a ha)
  | arrive context randomFail hindex =>
    exact fun i inv hi a ha => hgrow i a (h i inv hi a ha)

theorem acceptancesHandled_of_reachable {setup : System → Prop} {C : System → Action → Prop}
    {σ : System} (h : (paxos setup).Reachable C σ) : AcceptancesHandled σ := by
  refine ActionSystem.Reachable.invariant ?_ ?_ h
  · intro σ hinit i inv hi
    simp [hinit.1.runs] at hi
  · intro σ act σ' hreach _ hstep haccepted
    exact acceptancesHandled_step (provenance_of_reachable hreach) haccepted (step_cases hstep)

/-- An invocation that returned OK was accepted by a majority of its live set. -/
theorem exists_majority {σ : System} (hprov : Provenance σ)
    (haccepted : AcceptancesHandled σ) {i : Nat} {inv : Invocation}
    (hrun : σ.runs[i]? = some inv) (hreturned : inv.Returned true) :
    ∃ quorum, IsMajority quorum inv.livePaxosStubs ∧ ∀ a ∈ quorum, a ∈ σ.acceptors i := by
  have hcommitted := Invocation.committed_of_returned hreturned
  exact ⟨inv.acceptedBy, ((hprov.wf i inv hrun).committed hcommitted).2.1,
    haccepted i inv hrun⟩

/-- Two invocations that returned OK: each was accepted by a majority of its
own live set, and live sets that overlap enough give a common acceptor. -/
theorem acceptors_of_returned_ok {setup : System → Prop} {C : System → Action → Prop}
    {σ : System} (h : (paxos setup).Reachable C σ) {i j : Nat} {inv inv' : Invocation}
    (hi : σ.runs[i]? = some inv) (hj : σ.runs[j]? = some inv')
    (hok : inv.Returned true) (hok' : inv'.Returned true) :
    (∃ quorum, IsMajority quorum inv.livePaxosStubs ∧ ∀ a ∈ quorum, a ∈ σ.acceptors i) ∧
    (∃ quorum, IsMajority quorum inv'.livePaxosStubs ∧ ∀ a ∈ quorum, a ∈ σ.acceptors j) ∧
    ((inv.livePaxosStubs.toFinset ∪ inv'.livePaxosStubs.toFinset).card <
        inv.livePaxosStubs.length / 2 + 1 + (inv'.livePaxosStubs.length / 2 + 1) →
      ∃ a, a ∈ σ.acceptors i ∧ a ∈ σ.acceptors j) ∧
    (inv.livePaxosStubs = inv'.livePaxosStubs →
      ∃ a, a ∈ σ.acceptors i ∧ a ∈ σ.acceptors j) := by
  have hprov := provenance_of_reachable h
  have haccepted := acceptancesHandled_of_reachable h
  obtain ⟨q, hq, hqa⟩ := exists_majority hprov haccepted hi hok
  obtain ⟨q', hq', hqa'⟩ := exists_majority hprov haccepted hj hok'
  have hwf := hprov.wf i inv hi
  have hwf' := hprov.wf j inv' hj
  refine ⟨⟨q, hq, hqa⟩, ⟨q', hq', hqa'⟩, ?_, ?_⟩
  · intro hunion
    obtain ⟨a, ha, ha'⟩ := hq.exists_common hq' (hwf.nodup.sublist hwf.live)
      (hwf'.nodup.sublist hwf'.live) hunion
    exact ⟨a, hqa a ha, hqa' a ha'⟩
  · intro hsame
    rw [← hsame] at hq'
    obtain ⟨a, ha, ha'⟩ := hq.exists_common_of_same hq' (hwf.nodup.sublist hwf.live)
    exact ⟨a, hqa a ha, hqa' a ha'⟩

/-- `a` and `b` cannot reach each other, and each runs a `PutPair` for one
key. -/
def partitionedPuts : List Action :=
  [.start "a" (.put "k" "x"), .start "b" (.put "k" "y"),
    .call 0 .delivered false, .call 0 .lost false, .advance 0,
    .call 1 .lost false, .call 1 .delivered false, .advance 1] ++
    Action.loop 0 1 ++ Action.loop 0 1 ++ Action.loop 0 1 ++
    Action.loop 1 1 ++ Action.loop 1 1 ++ Action.loop 1 1

set_option maxRecDepth 10000 in
/-- Both return OK, and no replica accepted both. -/
theorem no_common_acceptor_partitionedPuts :
    ∃ σ, (paxos (SharesReplicas (.ofReplicas ["a", "b"]))).Reachable Unrestricted σ ∧
      ∃ inv ∈ σ.runs[0]?, ∃ inv' ∈ σ.runs[1]?, inv.key = inv'.key ∧
        inv.Returned true ∧ inv'.Returned true ∧
        ¬ ∃ a, a ∈ σ.acceptors 0 ∧ a ∈ σ.acceptors 1 := by
  have hrun : ∃ σ ∈ (paxos (SharesReplicas (.ofReplicas ["a", "b"]))).execWhere
      Unrestricted (fresh ["a", "b"]) partitionedPuts,
      ∃ inv ∈ σ.runs[0]?, ∃ inv' ∈ σ.runs[1]?, inv.key = inv'.key ∧
        inv.Returned true ∧ inv'.Returned true ∧
        ∀ a ∈ σ.acceptors 0, a ∉ σ.acceptors 1 := by
    decide +kernel
  obtain ⟨σ, hreach, inv, hi, inv', hj, hkey, hok, hok', hdisjoint⟩ :=
    exists_reachable_fresh hrun
  refine ⟨σ, hreach, inv, hi, inv', hj, hkey, hok, hok', ?_⟩
  rintro ⟨a, ha, ha'⟩
  exact hdisjoint a ha ha'

set_option maxRecDepth 10000 in
/-- Two `PutPair` requests one after the other, on different servers of
three, share an acceptor. -/
theorem common_acceptor_serialPuts :
    ∃ σ : System, ∃ a, a ∈ σ.acceptors 0 ∧ a ∈ σ.acceptors 1 := by
  have hrun : ∃ σ ∈ (paxos (SharesReplicas (.ofReplicas ["a", "b", "c"]))).execWhere
      Unrestricted (fresh ["a", "b", "c"])
      ([.start "a" (.put "k" "x")] ++ Action.loop 0 3 ++ Action.loop 0 3 ++ Action.loop 0 3 ++
        Action.loop 0 3 ++ [.start "b" (.put "k" "y")] ++ Action.loop 1 3 ++
        Action.loop 1 3 ++ Action.loop 1 3 ++ Action.loop 1 3),
      ∃ inv ∈ σ.runs[0]?, ∃ inv' ∈ σ.runs[1]?, inv.Returned true ∧ inv'.Returned true ∧
        inv.livePaxosStubs = inv'.livePaxosStubs := by
    decide +kernel
  obtain ⟨σ, hreach, inv, hi, inv', hj, hok, hok', hsame⟩ := exists_reachable_fresh hrun
  exact ⟨σ, (acceptors_of_returned_ok hreach hi hj hok hok').2.2.2 hsame⟩

end System

end PaxosKVStore
