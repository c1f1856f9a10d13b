import PaxosKVStore.Lib.Contiguous
import PaxosKVStore.Decided

/-!
# The rounds that invocations choose

An invocation chooses the round above the latest one that its own server has
logged.  This log may be behind, and it may be empty after a crash or hold
what a recovery has copied, so a round can be chosen twice.  But every logged
round was chosen by an invocation, and so was every round in a message and in
a snapshot.  The chosen rounds of a key are therefore 1 to some `M`, with no
gap, and `M` is at most the number of invocations on the key.

The source has `int` where the model has integers.  `toInt_add_one` shows that
the addition does not overflow before 2^31 - 1 invocations on one key have
started.
-/

namespace PaxosKVStore

namespace System

variable {σ σ' : System} {act : Action}

/-- The keys of the invocations with their rounds, in the order in which they
started. -/
def slots (σ : System) : List (String × Int) := σ.runs.map fun inv => (inv.key, inv.round)

/-- The rounds that the invocations on `key` have chosen. -/
def chosenRounds (σ : System) (key : String) : List Int :=
  (σ.slots.filter fun slot => slot.1 = key).map Prod.snd

/-- The number of invocations on `key` that were started. -/
def startedOn (σ : System) (key : String) : Nat :=
  (σ.runs.filter fun inv => inv.key = key).length

theorem length_chosenRounds (σ : System) (key : String) :
    (σ.chosenRounds key).length = σ.startedOn key := by
  rw [chosenRounds, slots, List.length_map, List.filter_map, List.length_map]
  rfl

theorem mem_chosenRounds {key : String} {r : Int} :
    r ∈ σ.chosenRounds key ↔ σ.RoundFrom key r := by
  simp only [chosenRounds, slots, List.mem_map, List.mem_filter, decide_eq_true_iff]
  constructor
  · rintro ⟨_, ⟨⟨inv, hinv, rfl⟩, hkey⟩, rfl⟩
    obtain ⟨i, hi⟩ := List.mem_iff_getElem?.mp hinv
    exact ⟨i, inv, hi, hkey, rfl⟩
  · rintro ⟨i, inv, hi, rfl, rfl⟩
    exact ⟨_, ⟨⟨inv, List.mem_of_getElem? hi, rfl⟩, rfl⟩, rfl⟩

/-- An invocation keeps its key and its round. -/
theorem slots_set {run : Nat} {inv inv' : Invocation} (hrun : σ.runs[run]? = some inv)
    (hevolves : inv.Evolves inv') (hruns : σ'.runs = σ.runs.set run inv') :
    σ'.slots = σ.slots := by
  obtain ⟨hlt, rfl⟩ := List.getElem?_eq_some_iff.mp hrun
  have hslot : (inv'.key, inv'.round) = (σ.runs[run].key, σ.runs[run].round) := by
    rw [hevolves.key, hevolves.round]
  have hlt' : run < σ.slots.length := by rwa [slots, List.length_map]
  have hsame : (σ.runs[run].key, σ.runs[run].round) = σ.slots[run] := by simp [slots]
  rw [slots, hruns, List.map_set, hslot, hsame]
  exact List.set_getElem_self hlt'

/-- A step starts an invocation with the round above the latest one of its
server, or it starts none. -/
theorem slots_step (hwf : WfRuns σ) (h : StepCases σ act σ') :
    σ'.slots = σ.slots ∨ ∃ server key,
      σ'.slots = σ.slots ++ [(key, (σ.db server).latestRound key + 1)] := by
  cases h with
  | refuse hrefusal => exact Or.inl rfl
  | @enter server request context hrefusal =>
    refine Or.inr ⟨server, request.key, ?_⟩
    rw [slots, List.map_append]
    rfl
  | call fate randomFail hrun hcall =>
    exact Or.inl (slots_set hrun (σ.call_evolves hcall randomFail fate) (call_runs ..))
  | advance hrun hadvance =>
    exact Or.inl (slots_set hrun (.advances (hwf _ _ hrun) hadvance) (noteReturn_runs ..))
  | arrive context randomFail hindex => exact Or.inl rfl

/-- The latest round is 0, or it was chosen. -/
theorem Provenance.latestRound_chosen (h : Provenance σ) (a : Addr) (key : String) :
    (σ.db a).latestRound key = 0 ∨ (σ.db a).latestRound key ∈ σ.chosenRounds key := by
  rcases (σ.db a).latestRound_cases key with ⟨_, hzero⟩ | hmem
  · exact Or.inl hzero
  · exact Or.inr (mem_chosenRounds.mpr ((h.db a).rounds key _ hmem))

/-- A step of the invocations leaves no gap. -/
theorem contiguous_step (hprov : Provenance σ) (h : StepCases σ act σ')
    (hcontiguous : ∀ key, Contiguous (σ.chosenRounds key)) (key : String) :
    Contiguous (σ'.chosenRounds key) := by
  rcases slots_step hprov.wf h with hsame | ⟨server, key', hnew⟩
  · rw [chosenRounds, hsame]
    exact hcontiguous key
  · rw [chosenRounds, hnew, List.filter_append, List.map_append]
    by_cases hkey : key' = key
    · subst hkey
      rw [List.filter_cons_of_pos (by simp)]
      exact (hcontiguous key').snoc (hprov.latestRound_chosen server key')
    · rw [List.filter_cons_of_neg (by simpa using hkey), List.filter_nil, List.map_nil,
        List.append_nil]
      exact hcontiguous key

/-- A message that was sent is about a chosen round. -/
theorem Provenance.slot_chosen (h : Provenance σ) {run : Nat} {a : Addr} {msg : Message}
    (hsent : .sent run a msg ∈ σ.history) {key : String} {r : Int}
    (hslot : msg.slot = some (key, r)) : r ∈ σ.chosenRounds key := by
  obtain ⟨inv, hrun, hsends⟩ := h.sent run a msg hsent
  have hlogged : msg.logged (.ping Status.OK) = some (key, r) := hslot
  obtain ⟨rfl, rfl⟩ := hsends.logged (h.wf run inv hrun) hlogged
  exact mem_chosenRounds.mpr ⟨run, inv, hrun, rfl, rfl⟩

end System

namespace Cluster

variable {c c' : Cluster} {setup : System → Prop} {C : Cluster → Action → Prop}

/-- No run of a cluster leaves a gap. -/
theorem contiguous_of_reachable (h : (cluster setup).Reachable C c) (key : String) :
    Contiguous (c.system.chosenRounds key) := by
  have hall : Origins c ∧ ∀ key, Contiguous (c.system.chosenRounds key) := by
    refine invariant_of_changes
      (I := fun c => Origins c ∧ ∀ key, Contiguous (c.system.chosenRounds key)) ?_ ?_ h
    · intro c hinit _
      refine ⟨origins_init hinit, fun key => ?_⟩
      rw [System.chosenRounds, System.slots, hinit.system.runs]
      exact .nil
    · intro c c' hI hchange
      obtain ⟨horigins, hcontiguous⟩ := hI
      refine ⟨origins_change horigins hchange, fun key => ?_⟩
      cases hchange with
      | paxos hstep hstart =>
        exact System.contiguous_step horigins.provenance hstep hcontiguous key
      | goTo henters => exact hcontiguous key
      | follow hphase hname => exact hcontiguous key
      | setValue hphase hentry => exact hcontiguous key
      | addPaxosLog hphase hentry => exact hcontiguous key
      | crash server => exact hcontiguous key
  exact hall.2 key

/-- A snapshot has chosen rounds only. -/
theorem Origins.snapshot_chosen (h : Origins c) {a : Addr} {kvMap : List (String × String)}
    {paxosLogs : List (String × Int × PaxosLog)}
    (hphase : c.initializing a = .restoring kvMap paxosLogs) {key : String} {r : Int}
    {log : PaxosLog} (hmem : (key, r, log) ∈ paxosLogs) : r ∈ c.system.chosenRounds key := by
  have hsnapshot := h.snapshots a
  rw [hphase] at hsnapshot
  exact System.mem_chosenRounds.mpr (hsnapshot key r log hmem).round

/-- The addition in `GetLatestRound(key) + 1`, which is one of `int`. -/
theorem toInt_add_one {latest : Int} {started : Nat} (hnonneg : 0 ≤ latest)
    (hle : latest ≤ started) (hlt : started < 2 ^ 31 - 1) :
    (Int32.ofInt latest + 1).toInt = latest + 1 := by
  rw [Int32.toInt_add, Int32.toInt_ofInt_of_le (by omega) (by omega)]
  exact Int.bmod_eq_of_le (by simp; omega) (by simp; omega)

/-- In every run the rounds chosen on a key are 1 to some `M` that is not above
the number of invocations on the key.  Logs, messages and snapshots have no
other round.  So the next round does not overflow, and no round is 0 or below,
as long as fewer than 2^31 - 1 invocations on the key were started. -/
theorem rounds_contiguous (h : (cluster setup).Reachable C c) (key : String) :
    (∃ M : Nat, M ≤ c.system.startedOn key ∧
      ∀ r, r ∈ c.system.chosenRounds key ↔ 1 ≤ r ∧ r ≤ M) ∧
    (∀ a, ∀ r ∈ (c.system.db a).rounds key, r ∈ c.system.chosenRounds key) ∧
    (∀ run a msg r, .sent run a msg ∈ c.system.history ∨ (run, a, msg) ∈ c.system.inFlight →
      msg.slot = some (key, r) → r ∈ c.system.chosenRounds key) ∧
    (∀ a kvMap paxosLogs r log, c.initializing a = .restoring kvMap paxosLogs →
      (key, r, log) ∈ paxosLogs → r ∈ c.system.chosenRounds key) ∧
    (c.system.startedOn key < 2 ^ 31 - 1 →
      (∀ a, (Int32.ofInt ((c.system.db a).latestRound key) + 1).toInt =
        (c.system.db a).latestRound key + 1) ∧
      ∀ r ∈ c.system.chosenRounds key, 0 < r ∧ r < 2 ^ 31 - 1) := by
  have horigins := origins_of_reachable h
  have hcontiguous := contiguous_of_reachable h key
  have hlength := System.length_chosenRounds c.system key
  refine ⟨?_, fun a r hr => ?_, fun run a msg r hmsg hslot => ?_,
    fun a kvMap paxosLogs r log hphase hmem => horigins.snapshot_chosen hphase hmem,
    fun hstarted => ⟨fun a => ?_, fun r hr => ?_⟩⟩
  · rw [← hlength]
    exact hcontiguous
  · exact System.mem_chosenRounds.mpr ((horigins.provenance.db a).rounds key r hr)
  · rcases hmsg with hsent | hflight
    · exact horigins.provenance.slot_chosen hsent hslot
    · exact horigins.provenance.slot_chosen (horigins.provenance.inFlight run a msg hflight) hslot
  · rcases horigins.provenance.latestRound_chosen a key with hzero | hmem
    · exact toInt_add_one (by omega) (by omega) hstarted
    · have hbounds := hcontiguous.bounds hmem
      exact toInt_add_one (by omega) (by omega) hstarted
  · have hbounds := hcontiguous.bounds hr
    omega

set_option maxRecDepth 20000 in
/-- The restarted `b` has not copied the logs of `a` yet, so it would choose
round 1 again. -/
theorem rounds_contiguous_restartedFollower :
    ∃ c : Cluster, c.system.startedOn "k" = 1 ∧ (c.system.db "b").latestRound "k" = 0 ∧
      (∃ M : Nat, M ≤ c.system.startedOn "k" ∧
        ∀ r, r ∈ c.system.chosenRounds "k" ↔ 1 ≤ r ∧ r ≤ M) ∧
      ∀ a, (Int32.ofInt ((c.system.db a).latestRound "k") + 1).toInt =
        (c.system.db a).latestRound "k" + 1 := by
  have hrun : ∃ c ∈ (cluster (System.SharesReplicas (.ofReplicas ["a", "b"]))).execWhere
      (fun _ _ => True) (fresh ["a", "b"]) restartedFollower,
      c.system.startedOn "k" = 1 ∧ (c.system.db "b").latestRound "k" = 0 := by
    decide +kernel
  obtain ⟨c, hreach, hstarted, hlatest⟩ := exists_reachable_fresh hrun
  obtain ⟨hcontiguous, _, _, _, hnext⟩ := rounds_contiguous hreach "k"
  exact ⟨c, hstarted, hlatest, hcontiguous, (hnext (by omega)).1⟩

end Cluster

end PaxosKVStore
