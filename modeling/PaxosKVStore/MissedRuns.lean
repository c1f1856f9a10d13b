import PaxosKVStore.CoordinatorRuns

/-!
# What a recovering server has missed

An invocation that `N` has not answered never informs it.  If it is the newest
one on its key, then `N` gets its operation with the snapshot only, and such a
key is `MissedNewest` once `C` has been informed.

`PassesNothing` is the condition on the `Inform` calls after the copy: `C`
executes only what `N` has answered, and `N` executes nothing on a key that is
`MissedNewest`, unless the snapshot will write over it.  Then both keep their
values on such a key, up to what is still to be written.
-/

namespace PaxosKVStore

namespace Initializing

/-- The data map of the coordinator has been copied. -/
def Copied : Initializing → Prop
  | .copying _ _ => True
  | .restoring _ _ => True
  | .returned _ => True
  | _ => False

instance : ∀ phase : Initializing, Decidable phase.Copied
  | .idle => isFalse id
  | .discovering _ _ => isFalse id
  | .electing _ => isFalse id
  | .recovering => isFalse id
  | .copying _ _ => isTrue trivial
  | .restoring _ _ => isTrue trivial
  | .returned _ => isTrue trivial

/-- It has returned OK. -/
def ReturnedOk : Initializing → Prop
  | .returned status => status.ok = true
  | _ => False

instance : ∀ phase : Initializing, Decidable phase.ReturnedOk
  | .idle => isFalse id
  | .discovering _ _ => isFalse id
  | .electing _ => isFalse id
  | .recovering => isFalse id
  | .copying _ _ => isFalse id
  | .restoring _ _ => isFalse id
  | .returned _ => inferInstanceAs (Decidable (_ = true))

/-- The entry is in the snapshot and still to be written. -/
def Pending (phase : Initializing) (key value : String) : Prop :=
  match phase with
  | .copying _ kvMap => kvMap.lookup key = some value
  | .restoring kvMap _ => (key, value) ∈ kvMap
  | _ => False

instance (key : String) : ∀ phase : Initializing, Decidable (∃ value, phase.Pending key value)
  | .idle => isFalse fun ⟨_, h⟩ => h
  | .discovering _ _ => isFalse fun ⟨_, h⟩ => h
  | .electing _ => isFalse fun ⟨_, h⟩ => h
  | .recovering => isFalse fun ⟨_, h⟩ => h
  | .copying _ kvMap =>
      decidable_of_iff ((kvMap.lookup key).isSome = true) Option.isSome_iff_exists
  | .restoring kvMap _ =>
      decidable_of_iff (∃ entry ∈ kvMap, entry.1 = key)
        ⟨fun ⟨⟨_, value⟩, hmem, hkey⟩ => ⟨value, hkey ▸ hmem⟩,
          fun ⟨value, hmem⟩ => ⟨(key, value), hmem, rfl⟩⟩
  | .returned _ => isFalse fun ⟨_, h⟩ => h

/-- The entry that is written by `SetValue`. -/
def entryAt (phase : Initializing) (index : Nat) : Option (String × String) :=
  match phase with
  | .restoring kvMap _ => kvMap[index]?
  | _ => none

end Initializing

namespace System

variable {C N : Addr} {stubs : PaxosStubs} {n : Nat} {σ σ' : System} {act : Action}
  {key : String}

variable {phase : Initializing}

/-- The newest invocations on the key have informed `C`, and `N` has not
answered them. -/
def MissedNewest (C N : Addr) (n : Nat) (σ : System) (key : String) : Prop :=
  ∀ inv ∈ σ.runs.drop n, inv.key = key → σ.Newest n key inv.round →
    N ∉ inv.livePaxosStubs ∧ inv.Informed C

instance (C N : Addr) (n : Nat) (σ : System) (key : String) :
    Decidable (σ.MissedNewest C N n key) :=
  inferInstanceAs (Decidable (∀ inv ∈ σ.runs.drop n, inv.key = key →
    σ.Newest n key inv.round → N ∉ inv.livePaxosStubs ∧ inv.Informed C))

/-- The operation that the invocation is about to execute, after the copy, does
not pass by `N`, and is not older than what has passed by. -/
def PassesNothing (C N : Addr) (n : Nat) (σ : System) (phase : Initializing)
    (inv : Invocation) : Prop :=
  match inv.phase with
  | .inform (addr :: _) =>
      phase.Copied → ¬ (σ.db addr).Supersedes inv.key inv.round →
        (addr = C → N ∈ inv.livePaxosStubs) ∧
        (addr = N → σ.MissedNewest C N n inv.key → ∃ value, phase.Pending inv.key value)
  | _ => True

instance (C N : Addr) (n : Nat) (σ : System) (phase : Initializing) (inv : Invocation) :
    Decidable (σ.PassesNothing C N n phase inv) :=
  match hphase : inv.phase with
  | .inform (addr :: _) =>
      decidable_of_iff (phase.Copied → ¬ (σ.db addr).Supersedes inv.key inv.round →
        (addr = C → N ∈ inv.livePaxosStubs) ∧
        (addr = N → σ.MissedNewest C N n inv.key → ∃ value, phase.Pending inv.key value))
        (by rw [PassesNothing, hphase])
  | .inform [] => isTrue (by simp [PassesNothing, hphase])
  | .ping _ => isTrue (by simp [PassesNothing, hphase])
  | .prepare _ => isTrue (by simp [PassesNothing, hphase])
  | .propose _ => isTrue (by simp [PassesNothing, hphase])
  | .returned _ => isTrue (by simp [PassesNothing, hphase])

/-- The invocation whose call this step delivers passes nothing by. -/
def NothingPasses (C N : Addr) (n : Nat) (σ : System) (phase : Initializing) (act : Action) :
    Prop :=
  ∀ run, act = .call run .delivered false → ∀ inv ∈ σ.runs[run]?, σ.PassesNothing C N n phase inv

/-- A call that executes something is an `Inform`. -/
theorem PassesNothing.executes {inv : Invocation} {receiver : Addr} {msg : Message}
    (h : σ.PassesNothing C N n phase inv) (hcopied : phase.Copied)
    (hcall : inv.Calls receiver msg) (hcommitted : inv.Committed)
    (hlatest : ¬ (σ.db receiver).Supersedes inv.key inv.round) :
    (receiver = C → N ∈ inv.livePaxosStubs) ∧
      (receiver = N → σ.MissedNewest C N n inv.key → ∃ value, phase.Pending inv.key value) := by
  cases hcall with
  | inform hphase =>
    rw [PassesNothing, hphase] at h
    exact h hcopied hlatest
  | ping hphase => simp [Invocation.Committed, hphase] at hcommitted
  | prepare hphase => simp [Invocation.Committed, hphase] at hcommitted
  | propose hphase => simp [Invocation.Committed, hphase] at hcommitted

/-! ## The newest invocations -/

/-- There is one with the highest round on each key. -/
theorem exists_newest_of_mem {inv : Invocation} (hinv : inv ∈ σ.runs.drop n) :
    ∃ last ∈ σ.runs.drop n, last.key = inv.key ∧ σ.Newest n inv.key last.round := by
  have hmem : inv ∈ ((σ.runs.drop n).filter (·.key = inv.key)).toFinset := by simp [hinv]
  obtain ⟨last, hlast, hmax⟩ :=
    Finset.exists_max_image _ Invocation.round ⟨inv, hmem⟩
  simp only [List.mem_toFinset, List.mem_filter, decide_eq_true_iff] at hlast hmax
  exact ⟨last, hlast.1, hlast.2, fun other hother hkey => hmax other ⟨hother, hkey⟩⟩

/-- A new invocation has informed nobody, so it is not among the newest that
have informed `C`. -/
theorem MissedNewest.newest_forth (hprov : Provenance σ)
    (hstep : RunsCases C n σ act σ') (h : MissedNewest C N n σ' key) {inv : Invocation}
    (hnewest : σ.Newest n key inv.round) : σ'.Newest n key inv.round := by
  intro other' hother' hkey'
  rcases hstep.back hprov hother' with ⟨other, hother, hevolves⟩ | ⟨request, _, rfl⟩
  · rw [hevolves.round]
    exact hnewest other hother (hevolves.key.symm.trans hkey')
  · by_contra hlt
    refine (h _ hother' hkey' fun third' hthird' hkey3 => ?_).2.elim
    rcases hstep.back hprov hthird' with ⟨third, hthird, hevolves⟩ | ⟨request', _, rfl⟩
    · have hle := hnewest third hthird (hevolves.key.symm.trans hkey3)
      rw [← hevolves.round] at hle
      omega
    · have hsame : request'.key = request.key := hkey3.trans hkey'.symm
      show (σ.servers C).kvDb.latestRound request'.key + 1 ≤
        (σ.servers C).kvDb.latestRound request.key + 1
      rw [hsame]

theorem Goes.livePaxosStubs {run : Nat} {inv inv' : Invocation}
    (h : Goes C run inv act inv') : inv'.livePaxosStubs = inv.livePaxosStubs := by
  cases h with
  | lose hphase hne => rfl
  | advance hadvance => cases hadvance <;> rfl

theorem Delivers.livePaxosStubs {inv inv' : Invocation} {receiver : Addr} {randomFail : Bool}
    {msg : Message} {reply : Reply} (h : σ.Delivers inv receiver randomFail msg reply inv')
    {a : Addr} (ha : a ∉ inv'.livePaxosStubs) : a ∉ inv.livePaxosStubs := by
  cases h with
  | ping hphase => exact fun hmem => ha (List.mem_append_left _ hmem)
  | _ => exact ha

/-- After the copy, `C` executes only what `N` has answered.  So the newest
invocations that have passed `N` by have done so before the step. -/
theorem MissedNewest.back (hprov : Provenance σ) (hruns : CoordinatorRuns C N stubs n σ)
    (hstep : RunsCases C n σ act σ') (hcopied : phase.Copied)
    (hpasses : σ.NothingPasses C N n phase act)
    (h : MissedNewest C N n σ' key) : MissedNewest C N n σ key := by
  intro inv hinv hkey hnewest
  have hnewest' := h.newest_forth hprov hstep hnewest
  have hsame : inv ∈ σ'.runs.drop n → N ∉ inv.livePaxosStubs ∧ inv.Informed C := fun hinv' =>
    h inv hinv' hkey hnewest'
  cases hstep with
  | refuse hruns' hservers => exact hsame (by rwa [hruns'])
  | enter hupdate hruns' hservers =>
    exact hsame (by rw [hruns']; exact mem_drop_snoc_of_mem hinv)
  | @goes _ _ run inv0 inv1 hn hrun hgoes hruns' hservers =>
    rcases mem_drop_set_of_mem hrun hinv with rfl | hmem
    · have hevolves := hgoes.evolves (hprov.wf run inv hrun)
      have hinv1 : inv1 ∈ σ'.runs.drop n := by
        rw [hruns']
        exact mem_drop_set_self hn hrun
      obtain ⟨hmissed, hinformed⟩ :=
        h inv1 hinv1 (hevolves.key.trans hkey) (hevolves.round ▸ hnewest')
      exact ⟨hgoes.livePaxosStubs ▸ hmissed, hgoes.informed hinformed⟩
    · exact hsame (by rwa [hruns'])
  | @deliver _ run inv0 inv1 receiver msg reply hn hrun hcall hdelivers hevolves hruns'
      hservers =>
    rcases mem_drop_set_of_mem hrun hinv with rfl | hmem
    · have hinv1 : inv1 ∈ σ'.runs.drop n := by
        rw [hruns']
        exact mem_drop_set_self hn hrun
      obtain ⟨hmissed', hinformed⟩ :=
        h inv1 hinv1 (hevolves.key.trans hkey) (hevolves.round ▸ hnewest')
      have hmissed := hdelivers.livePaxosStubs hmissed'
      rcases hdelivers.informed hinformed with hbefore | ⟨hreceiver, hcommitted⟩
      · exact ⟨hmissed, hbefore⟩
      · have hlatest := hruns.not_supersedes hinv (hkey ▸ hnewest) (Or.inl hreceiver.symm)
        have hpassed := (hpasses run rfl inv hrun).executes hcopied hcall hcommitted hlatest
        exact absurd (hpassed.1 hreceiver.symm) hmissed
    · exact hsame (by rwa [hruns'])

/-! ## The values at the two servers -/

/-- After the copy, `C` executes no more on a key that is `MissedNewest`. -/
theorem MissedNewest.getValue (hprov : Provenance σ) (hruns : CoordinatorRuns C N stubs n σ)
    (hstep : RunsCases C n σ act σ') (hcopied : phase.Copied)
    (hpasses : σ.NothingPasses C N n phase act)
    (h : MissedNewest C N n σ key) : (σ'.db C).getValue key = (σ.db C).getValue key := by
  rcases hstep.silent_or hprov with hsilent |
    ⟨run, inv, inv1, receiver, msg, reply, rfl, hn, hrun, hcall, hdelivers, hevolves, _,
      hservers⟩
  · exact hsilent.getValue C key
  · rw [getValue_deliver (hprov.wf run inv hrun) hcall hservers]
    refine if_neg ?_
    rintro ⟨⟨rfl, rfl⟩, hcommitted, hlatest⟩
    have hinv := mem_drop_of_getElem? hn hrun
    have hpassed := (hpasses run rfl inv hrun).executes hcopied hcall hcommitted hlatest
    obtain ⟨last, hlast, hkey, hnewest⟩ := exists_newest_of_mem hinv
    obtain ⟨_, hinformed⟩ := h last hlast hkey hnewest
    -- `last` is logged at `C`, so this one is as new, and has not been answered
    have hnot : ¬ inv.round < last.round := fun hlt =>
      hlatest ⟨last.round, hkey ▸ hruns.logged last hlast _ hinformed, hlt⟩
    have hle : inv.round ≤ last.round := hnewest inv hinv rfl
    have heq : last.round = inv.round := by omega
    exact (h inv hinv rfl (heq ▸ hnewest)).1 (hpassed.1 rfl)

/-- What `N` executes on such a key, the snapshot writes over. -/
theorem MissedNewest.getValue_or (hprov : Provenance σ)
    (hstep : RunsCases C n σ act σ') (hcopied : phase.Copied)
    (hpasses : σ.NothingPasses C N n phase act)
    (h : MissedNewest C N n σ key) :
    (σ'.db N).getValue key = (σ.db N).getValue key ∨ ∃ value, phase.Pending key value := by
  rcases hstep.silent_or hprov with hsilent |
    ⟨run, inv, inv1, receiver, msg, reply, rfl, hn, hrun, hcall, hdelivers, hevolves, _,
      hservers⟩
  · exact Or.inl (hsilent.getValue N key)
  · rw [getValue_deliver (hprov.wf run inv hrun) hcall hservers]
    split
    · rename_i hexecutes
      obtain ⟨⟨rfl, rfl⟩, hcommitted, hlatest⟩ := hexecutes
      exact Or.inr (((hpasses run rfl inv hrun).executes hcopied hcall hcommitted hlatest).2 rfl h)
    · exact Or.inl rfl

end System

end PaxosKVStore
