import PaxosKVStore.Decided
import PaxosKVStore.MissedRuns

/-!
# A recovery beside the runs of the coordinator

`GetRecovery` takes the snapshot in two parts and writes it entry by entry,
over whatever the invocations of the coordinator have brought meanwhile.
`LosesNothing` is the condition on a step that this takes nothing away, and
that no operation passes between the snapshot and the calls.

Under it, each key of the recovering server is in one of two states at the end.
Either the newest invocation has informed the server, so it shows its operation.
Or the newest invocation has passed it by, and then the snapshot decides: the
entry that is still to be written, or the value that is there if none is, is
that of the coordinator.
-/

namespace PaxosKVStore

namespace System

variable {C N : Addr} {stubs : PaxosStubs} {n : Nat} {σ σ' : System} {act : Action}
  {key : String} {phase : Initializing}

/-! ## The snapshot -/

/-- Where the newest invocations have passed `N` by, the snapshot brings the
value of `C`, or has brought it. -/
def Restored (C N : Addr) (n : Nat) (σ : System) (phase : Initializing) : Prop :=
  ∀ key, MissedNewest C N n σ key →
    (∀ value, phase.Pending key value → (σ.db C).getValue key = some value) ∧
      ((∀ value, ¬ phase.Pending key value) →
        (σ.db N).getValue key = (σ.db C).getValue key)

/-- The entry of the snapshot is what the newest invocation on its key has
written, if that one has informed `N`. -/
def UpToDate (N : Addr) (n : Nat) (σ : System) (key value : String) : Prop :=
  ∀ inv ∈ σ.runs.drop n, inv.key = key → σ.Newest n key inv.round → inv.Informed N →
    inv.proposal.effect none = some value

instance (N : Addr) (n : Nat) (σ : System) (key value : String) :
    Decidable (σ.UpToDate N n key value) :=
  inferInstanceAs (Decidable (∀ inv ∈ σ.runs.drop n, inv.key = key →
    σ.Newest n key inv.round → inv.Informed N → inv.proposal.effect none = some value))

/-- What the place of `N` in `Initialize` says about its database. -/
def Snapshot (C N : Addr) (n : Nat) (σ : System) (phase : Initializing) : Prop :=
  match phase with
  | .copying coordinator _ => coordinator = C ∧ Restored C N n σ phase
  | .restoring _ paxosLogs =>
      (∀ key r log, (key, r, log) ∈ paxosLogs → r ∈ (σ.db C).rounds key) ∧
        Restored C N n σ phase
  | .returned status => status.ok = true → Restored C N n σ phase
  | _ => True

/-- Rounds stay logged. -/
theorem RunsCases.mem_rounds (hprov : Provenance σ) (h : RunsCases C n σ act σ') {a : Addr}
    {r : Int} (hr : r ∈ (σ.db a).rounds key) : r ∈ (σ'.db a).rounds key := by
  rcases h.silent_or hprov with hsilent |
    ⟨run, inv, inv1, receiver, msg, reply, rfl, hn, hrun, hcall, hdelivers, hevolves, hruns,
      hservers⟩
  · exact (hsilent.mem_rounds a key r).mpr hr
  · exact (mem_rounds_deliver (hprov.wf run inv hrun) hcall hservers a key r).mpr (Or.inr hr)

theorem Restored.step (hprov : Provenance σ) (hruns : CoordinatorRuns C N stubs n σ)
    (hstep : RunsCases C n σ act σ') (hcopied : phase.Copied)
    (hpasses : σ.NothingPasses C N n phase act)
    (h : Restored C N n σ phase) : Restored C N n σ' phase := by
  intro key hmissed'
  have hmissed := hmissed'.back hprov hruns hstep hcopied hpasses
  obtain ⟨hpending, hwritten⟩ := h key hmissed
  rw [hmissed.getValue hprov hruns hstep hcopied hpasses]
  refine ⟨hpending, fun hno => ?_⟩
  rcases hmissed.getValue_or hprov hstep hcopied hpasses with hsame | ⟨value, hvalue⟩
  · exact hsame.trans (hwritten hno)
  · exact absurd hvalue (hno value)

theorem Snapshot.step (hprov : Provenance σ) (hruns : CoordinatorRuns C N stubs n σ)
    (hstep : RunsCases C n σ act σ')
    (hpasses : σ.NothingPasses C N n phase act)
    (h : Snapshot C N n σ phase) : Snapshot C N n σ' phase := by
  cases phase with
  | copying coordinator kvMap =>
    exact ⟨h.1, Restored.step hprov hruns hstep trivial hpasses h.2⟩
  | restoring kvMap paxosLogs =>
    exact ⟨fun key r log hmem => hstep.mem_rounds hprov (h.1 key r log hmem),
      Restored.step hprov hruns hstep trivial hpasses h.2⟩
  | returned status =>
    exact fun hok => Restored.step hprov hruns hstep trivial hpasses (h hok)
  | _ => trivial

end System

/-! ## The steps of the recovery -/

namespace Cluster

variable {C N : Addr} {stubs : PaxosStubs} {n : Nat} {c0 c c' : Cluster}

/-- A step of `N`, which recovers from `C`, or of the invocations of `C`. -/
def RecoversBeside (C N : Addr) (n : Nat) (c : Cluster) : Action → Prop
  | .paxos act => c.system.RunsBeside C n act
  | .initializeServer server step =>
      server = N ∧ step ≠ .elect ∧ (step = .copyDataMap →
        (c.system.servers N).paxosStubsMap.getCoordinatorStub = some C)
  | .electNewCoordinator .. => False
  | .crash _ => False

instance (C N : Addr) (n : Nat) (c : Cluster) : ∀ act, Decidable (c.RecoversBeside C N n act)
  | .paxos act => inferInstanceAs (Decidable (c.system.RunsBeside C n act))
  | .initializeServer _ _ => inferInstanceAs (Decidable (_ ∧ _ ∧ _))
  | .electNewCoordinator .. => isFalse id
  | .crash _ => isFalse id

/-- The step brings no operation past the snapshot, and writes no entry and no
log of it over a newer one. -/
def LosesNothing (C N : Addr) (n : Nat) (c : Cluster) : Action → Prop
  | .paxos (.advance run) => ∀ inv ∈ c.system.runs[run]?, ¬ c.system.Disagrees n inv
  | .paxos (.call run .delivered _) => ∀ inv ∈ c.system.runs[run]?,
      c.system.PassesNothing C N n (c.initializing N) inv
  | .initializeServer server .copyDataMap =>
      ∀ key ∈ (c.system.servers server).kvDb.dataMap.keys,
        (c.system.servers C).kvDb.getValue key = none → ¬ c.system.MissedNewest C N n key
  | .initializeServer server (.setValue index) =>
      ∀ entry ∈ (c.initializing server).entryAt index, c.system.UpToDate N n entry.1 entry.2
  | .initializeServer server (.addPaxosLog index) =>
      c.Undisputed (.initializeServer server (.addPaxosLog index))
  | _ => True

instance (C N : Addr) (n : Nat) (c : Cluster) : ∀ act, Decidable (c.LosesNothing C N n act)
  | .paxos (.advance run) =>
      inferInstanceAs (Decidable (∀ inv ∈ c.system.runs[run]?, ¬ c.system.Disagrees n inv))
  | .paxos (.call run .delivered _) =>
      inferInstanceAs (Decidable (∀ inv ∈ c.system.runs[run]?,
        c.system.PassesNothing C N n (c.initializing N) inv))
  | .paxos (.call _ .lost _) => isTrue trivial
  | .paxos (.call _ .replyLost _) => isTrue trivial
  | .paxos (.start ..) => isTrue trivial
  | .paxos (.arrive ..) => isTrue trivial
  | .initializeServer server (.setValue index) =>
      inferInstanceAs (Decidable (∀ entry ∈ (c.initializing server).entryAt index,
        c.system.UpToDate N n entry.1 entry.2))
  | .initializeServer server (.addPaxosLog index) =>
      inferInstanceAs (Decidable (c.Undisputed (.initializeServer server (.addPaxosLog index))))
  | .initializeServer _ .start => isTrue trivial
  | .initializeServer _ (.ask _) => isTrue trivial
  | .initializeServer _ .discovered => isTrue trivial
  | .initializeServer _ .elect => isTrue trivial
  | .initializeServer _ .elected => isTrue trivial
  | .initializeServer server .copyDataMap =>
      inferInstanceAs (Decidable (∀ key ∈ (c.system.servers server).kvDb.dataMap.keys,
        (c.system.servers C).kvDb.getValue key = none → ¬ c.system.MissedNewest C N n key))
  | .initializeServer _ .copyPaxosLogs => isTrue trivial
  | .initializeServer _ .finish => isTrue trivial
  | .initializeServer _ (.fail _) => isTrue trivial
  | .electNewCoordinator .. => isTrue trivial
  | .crash _ => isTrue trivial

/-- What a recovery beside the invocations of the coordinator keeps. -/
structure Recovering (C N : Addr) (stubs : PaxosStubs) (n : Nat) (c : Cluster) : Prop where
  runs : System.CoordinatorRuns C N stubs n c.system
  snapshot : System.Snapshot C N n c.system (c.initializing N)

/-- The proposals of the updates write a value or delete it. -/
theorem Origins.effect (h : Origins c)
    (hupdate : ∀ inv ∈ c.system.runs.drop n, inv.request.IsUpdate) {inv : Invocation}
    (hinv : inv ∈ c.system.runs.drop n) (hproposed : inv.Proposed) (before : Option String) :
    inv.proposal.effect before = inv.proposal.effect none := by
  obtain ⟨i, _, hi⟩ := System.getElem?_of_mem_drop hinv
  obtain ⟨j, other, hj, hkey, _, _, _, hop⟩ :=
    System.proposalFrom_proposal hi (h.provenance.adopted i inv hi) hproposed
  have hadmitted := h.admitted i inv hi
  have hother := h.admitted j other hj
  -- an update is not on the reserved key, where elections are
  have hreserved : inv.request.key ≠ "coordinator" := by
    intro heq
    have htype := hadmitted.type_iff.mpr heq
    have hwrites := hupdate inv hinv
    generalize inv.request = request at htype hwrites
    cases request with
    | put key value => cases htype
    | delete key => cases htype
    | electCoordinator key coordinator => exact hwrites
  have hnot : other.request.setProposeValue.type ≠ .setCoordinator := fun heq =>
    hreserved (hkey.symm.trans (hother.type_iff.mp heq))
  have hset := hother.type_ne_notSet
  rw [hop]
  unfold Operation.effect
  split <;> simp_all

theorem db_setServer_self (c : Cluster) (a : Addr) (service : MultiPaxosServiceImpl) :
    (c.setServer a service).system.db a = service.kvDb :=
  congrArg MultiPaxosServiceImpl.kvDb (setServer_self c a service)

theorem db_setServer_of_ne (c : Cluster) {server a : Addr} (service : MultiPaxosServiceImpl)
    (h : a ≠ server) : (c.setServer server service).system.db a = c.system.db a :=
  congrArg MultiPaxosServiceImpl.kvDb (setServer_of_ne c server service h)

/-- The recovery writes to the database of `N`, and the invocations stay as
they are. -/
theorem coordinatorRuns_setServer (h : System.CoordinatorRuns C N stubs n c.system)
    (hne : C ≠ N) {service : MultiPaxosServiceImpl}
    (hmono : ∀ key, ∀ r ∈ (c.system.servers N).kvDb.rounds key, r ∈ service.kvDb.rounds key)
    (horigin : ∀ key, ∀ r ∈ service.kvDb.rounds key,
      r ∈ (c.system.servers N).kvDb.rounds key ∨ r ∈ (c.system.servers C).kvDb.rounds key)
    (hshows : ∀ inv ∈ c.system.runs.drop n, c.system.Newest n inv.key inv.round →
      inv.Informed N → service.kvDb.getValue inv.key = inv.proposal.effect none) :
    System.CoordinatorRuns C N stubs n (c.setServer N service).system := by
  have hC := db_setServer_of_ne c service hne
  have hN := db_setServer_self c N service
  refine ⟨h.update, h.course, h.agree, ?_, ?_, ?_, ?_⟩
  · intro inv hinv a hinformed
    have hlogged := h.logged inv hinv a hinformed
    by_cases ha : a = N
    · subst ha
      rw [hN]
      exact hmono inv.key _ hlogged
    · show inv.round ∈ ((c.setServer N service).system.servers a).kvDb.rounds inv.key
      rw [setServer_of_ne c N service ha]
      exact hlogged
  · intro key R hsome hnewest r hr
    rw [hC] at hr
    exact h.bounded key R hsome hnewest r hr
  · intro key r hr
    rw [hN] at hr
    rw [hC]
    rcases horigin key r hr with hbefore | hlogged
    · exact h.origin key r hbefore
    · exact Or.inl hlogged
  · intro inv hinv hnewest a ha hinformed
    rcases ha with rfl | rfl
    · rw [hC]
      exact h.shows inv hinv hnewest _ (Or.inl rfl) hinformed
    · rw [hN]
      exact hshows inv hinv hnewest hinformed

theorem recovering_goTo (hruns : System.CoordinatorRuns C N stubs n c.system)
    {phase : Initializing} (hsnapshot : System.Snapshot C N n c.system phase) :
    Recovering C N stubs n (c.goTo N phase) := by
  refine ⟨hruns, ?_⟩
  rw [goTo_self]
  exact hsnapshot

/-- The copy of the data map.  A key that is not in it has no value at `N`. -/
theorem restored_copying (hcopy : ∀ key ∈ (c.system.servers N).kvDb.dataMap.keys,
    (c.system.servers C).kvDb.getValue key = none → ¬ c.system.MissedNewest C N n key)
    (coordinator : Addr) :
    System.Restored C N n c.system
      (.copying coordinator (c.system.servers C).kvDb.dataMap) := by
  refine fun key hmissed => ⟨fun value hpending => hpending, fun hno => ?_⟩
  have hC : (c.system.db C).getValue key = none := by
    cases hvalue : (c.system.db C).getValue key with
    | none => rfl
    | some value => exact absurd hvalue (hno value)
  rw [hC]
  by_contra hvalue
  refine hcopy key ?_ hC hmissed
  rw [Finmap.mem_keys, ← Finmap.lookup_isSome, ← Option.ne_none_iff_isSome]
  exact hvalue

/-- The snapshot that is about to be written has the entries of the copy. -/
theorem restored_restoring {kvMap : DataMap} {coordinator : Addr} {response : RecoverResponse}
    (hkvMap : response.kvMap = kvMap)
    (h : System.Restored C N n c.system (.copying coordinator kvMap)) :
    System.Restored C N n c.system (.restoring (RestoreOrder.byKey response).kvMap
      (RestoreOrder.byKey response).writes) := by
  have hpending : ∀ key value, (key, value) ∈ (RestoreOrder.byKey response).kvMap ↔
      kvMap.lookup key = some value := by
    intro key value
    rw [RestoreOrder.mem_kvMap, hkvMap]
  intro key hmissed
  obtain ⟨hvalue, hwritten⟩ := h key hmissed
  refine ⟨fun value hmem => ?_, fun hno => ?_⟩
  · exact hvalue value ((hpending key value).mp hmem)
  · exact hwritten fun value hlookup => hno value ((hpending key value).mpr hlookup)

/-- An entry of the snapshot is written. -/
theorem restored_setValue {kvMap : List (String × String)}
    {paxosLogs : List (String × Int × PaxosLog)} {index : Nat} {key value : String}
    (hne : C ≠ N) (hentry : kvMap[index]? = some (key, value))
    (h : System.Restored C N n c.system (.restoring kvMap paxosLogs)) :
    System.Restored C N n
      (c.setServer N { c.system.servers N with
        kvDb := ((c.system.servers N).kvDb.setValue key value).2 }).system
      (.restoring (kvMap.eraseIdx index) paxosLogs) := by
  intro key' hmissed
  rw [db_setServer_of_ne c _ hne, db_setServer_self, KeyValueDataBase.getValue_setValue]
  obtain ⟨hvalue, hwritten⟩ := h key' hmissed
  refine ⟨fun value' hmem => ?_, fun hno => ?_⟩
  · exact hvalue value' (List.mem_of_mem_eraseIdx hmem)
  · split
    · rename_i heq
      subst heq
      exact (hvalue value (List.mem_of_getElem? hentry)).symm
    · rename_i hother
      refine hwritten fun value' hmem => hno value' ?_
      refine List.mem_eraseIdx_iff_getElem?.mpr ?_
      obtain ⟨i, hi⟩ := List.mem_iff_getElem?.mp hmem
      refine ⟨i, ?_, hi⟩
      rintro rfl
      rw [hentry] at hi
      cases hi
      exact hother rfl

theorem recovering_step (horigins : Origins c) (hshares : System.SharesReplicas stubs c.system)
    (hC : C ∈ stubs.addrs) (hne : C ≠ N) (h : Recovering C N stubs n c) {act : Action}
    (hrecovers : c.RecoversBeside C N n act) (hloses : c.LosesNothing C N n act)
    (hstep : c.step act = some c') :
    Recovering C N stubs n c' := by
  have hruns := h.runs
  have hsnapshot := h.snapshot
  cases step_cases hstep with
  | @paxos act σ hpermits hpaxos =>
    have hcases := System.runs_cases horigins.provenance hrecovers (System.step_cases hpaxos)
    refine ⟨?_, ?_⟩
    · refine System.coordinatorRuns_step horigins.provenance hshares hC hruns ?_
        (fun inv hinv hproposed => horigins.effect hruns.update hinv hproposed) hcases
      rintro run rfl
      exact hloses
    · refine System.Snapshot.step horigins.provenance hruns hcases ?_ hsnapshot
      rintro run rfl
      exact hloses
  | electNewCoordinator hlisted => exact hrecovers.elim
  | crash server => exact hrecovers.elim
  | start hphase =>
    obtain ⟨rfl, _, _⟩ := hrecovers
    exact recovering_goTo hruns trivial
  | ask fate hphase =>
    obtain ⟨rfl, _, _⟩ := hrecovers
    exact recovering_goTo hruns trivial
  | @discovered server coordinator found hphase hname hlive =>
    obtain ⟨rfl, _, _⟩ := hrecovers
    refine recovering_goTo (c := c.setServer server _) ?_ trivial
    exact coordinatorRuns_setServer hruns hne (fun _ _ hr => hr) (fun _ _ hr => Or.inl hr)
      fun inv hinv hnewest hinformed => hruns.shows inv hinv hnewest _ (Or.inr rfl) hinformed
  | undiscovered hphase =>
    obtain ⟨rfl, _, _⟩ := hrecovers
    exact recovering_goTo hruns trivial
  | elect hphase hlisted =>
    obtain ⟨_, helect, _⟩ := hrecovers
    exact absurd rfl helect
  | elected hphase hrun hreturned hok =>
    obtain ⟨rfl, _, _⟩ := hrecovers
    exact recovering_goTo hruns trivial
  | @copyDataMap server coordinator hphase hstub =>
    obtain ⟨rfl, _, hcoordinator⟩ := hrecovers
    rw [hcoordinator rfl] at hstub
    cases hstub
    exact recovering_goTo hruns ⟨rfl, restored_copying hloses _⟩
  | @copyPaxosLogs server coordinator kvMap response hphase hresponse =>
    obtain ⟨rfl, _, _⟩ := hrecovers
    rw [hphase] at hsnapshot
    obtain ⟨rfl, hrestored⟩ := hsnapshot
    refine recovering_goTo hruns ⟨fun key r log hmem => ?_, ?_⟩
    · exact (logged_of_mem_writes hresponse hmem).1
    · exact restored_restoring (by rw [hresponse]) hrestored
  | @setValue server index key value kvMap paxosLogs hphase hindex =>
    obtain ⟨rfl, _, _⟩ := hrecovers
    have hcurrent := hloses (key, value)
      (by simpa [Initializing.entryAt, hphase] using hindex)
    rw [hphase] at hsnapshot
    obtain ⟨hlogs, hrestored⟩ := hsnapshot
    refine recovering_goTo (c := c.setServer server _) ?_ ⟨fun key r log hmem => ?_, ?_⟩
    · refine coordinatorRuns_setServer hruns hne (fun _ _ hr => hr) (fun _ _ hr => Or.inl hr) ?_
      intro inv hinv hnewest hinformed
      rw [KeyValueDataBase.getValue_setValue]
      split
      · rename_i hkey
        exact (hcurrent inv hinv hkey (hkey ▸ hnewest) hinformed).symm
      · exact hruns.shows inv hinv hnewest _ (Or.inr rfl) hinformed
    · rw [db_setServer_of_ne c _ hne]
      exact hlogs key r log hmem
    · exact restored_setValue hne hindex hrestored
  | @addPaxosLog server index key round log paxosLogs hphase hindex =>
    obtain ⟨rfl, _, _⟩ := hrecovers
    rw [hphase] at hsnapshot
    obtain ⟨hlogs, hrestored⟩ := hsnapshot
    have hlogged := hlogs key round log (List.mem_of_getElem? hindex)
    refine recovering_goTo (c := c.setServer server _) ?_ ⟨fun key r log hmem => ?_, ?_⟩
    · refine coordinatorRuns_setServer hruns hne (fun key' r hr => ?_) (fun key' r hr => ?_) ?_
      · exact (KeyValueDataBase.mem_rounds_updateLog _ _ _ _ _).mpr (Or.inr hr)
      · rcases (KeyValueDataBase.mem_rounds_updateLog _ _ _ _ _).mp hr with ⟨rfl, rfl⟩ | hbefore
        · exact Or.inr hlogged
        · exact Or.inl hbefore
      · intro inv hinv hnewest hinformed
        exact hruns.shows inv hinv hnewest _ (Or.inr rfl) hinformed
    · rw [db_setServer_of_ne c _ hne]
      exact hlogs key r log (List.mem_of_mem_eraseIdx hmem)
    · intro key' hmissed
      rw [db_setServer_of_ne c _ hne, db_setServer_self]
      exact hrestored key' hmissed
  | finish hphase =>
    obtain ⟨rfl, _, _⟩ := hrecovers
    rw [hphase] at hsnapshot
    refine recovering_goTo hruns fun _ key hmissed => ?_
    refine ⟨fun _ hpending => hpending.elim, fun _ => ?_⟩
    exact (hsnapshot.2 key hmissed).2 fun value hmem => List.not_mem_nil hmem
  | @giveUp server step status hno =>
    obtain ⟨rfl, _, _⟩ := hrecovers
    refine recovering_goTo hruns fun hok => ?_
    rw [hno] at hok
    cases hok

/-- There is nothing at `N` yet. -/
theorem recovering_start (hruns : n = c.system.runs.length)
    (hempty : (c.system.servers N).kvDb = {}) (hidle : c.initializing N = .idle) :
    Recovering C N stubs n c := by
  refine ⟨System.coordinatorRuns_start hruns hempty, ?_⟩
  rw [hidle]
  trivial

/-- When `N` has recovered and no invocation is running, it has the data map of
the coordinator. -/
def Recovered (C N : Addr) (n : Nat) (c : Cluster) : Prop :=
  (c.initializing N).ReturnedOk → (∀ inv ∈ c.system.runs.drop n, ¬ inv.Active) →
    (c.system.servers N).kvDb.dataMap = (c.system.servers C).kvDb.dataMap

/-- Who has returned has informed all that answered it. -/
theorem informed_of_returned {live : List Addr} {inv : Invocation}
    (hcourse : inv.OnCourse live stubs.addrs) (hreturned : ¬ inv.Active) {a : Addr}
    (ha : a ∈ inv.livePaxosStubs) : inv.Informed a := by
  cases hphase : inv.phase with
  | returned status =>
    rw [Invocation.OnCourse, hphase] at hcourse
    rw [Invocation.Informed, hphase]
    exact ⟨hcourse.2.2.2, ha⟩
  | _ => exact absurd (by simp [Invocation.Active, hphase]) hreturned

theorem Recovering.recovered (h : Recovering C N stubs n c) (hC : C ∈ stubs.addrs) :
    Recovered C N n c := by
  intro hok hreturned
  refine KeyValueDataBase.dataMap_ext fun key => ?_
  have hinformedC : ∀ inv ∈ c.system.runs.drop n, inv.Informed C := by
    intro inv hinv
    obtain ⟨live, hlive, hcourse⟩ := h.runs.course inv hinv
    have hnot := hreturned inv hinv
    refine informed_of_returned hcourse hnot ?_
    have hreached := Invocation.mem_reached.mpr ⟨hC, hlive⟩
    cases hphase : inv.phase with
    | returned status =>
      rw [Invocation.OnCourse, hphase] at hcourse
      exact hcourse.1 ▸ hreached
    | _ => exact absurd (by simp [Invocation.Active, hphase]) hnot
  by_cases hheard : ∃ inv ∈ c.system.runs.drop n, inv.key = key ∧
      c.system.Newest n key inv.round ∧ N ∈ inv.livePaxosStubs
  · -- the newest invocation has informed both
    obtain ⟨inv, hinv, rfl, hnewest, hlive⟩ := hheard
    obtain ⟨live, _, hcourse⟩ := h.runs.course inv hinv
    have hinformedN := informed_of_returned hcourse (hreturned inv hinv) hlive
    have hshowsN := h.runs.shows inv hinv hnewest N (Or.inr rfl) hinformedN
    have hshowsC := h.runs.shows inv hinv hnewest C (Or.inl rfl) (hinformedC inv hinv)
    exact hshowsN.trans hshowsC.symm
  · have hmissed : System.MissedNewest C N n c.system key := by
      intro inv hinv hkey hnewest
      exact ⟨fun hlive => hheard ⟨inv, hinv, hkey, hnewest, hlive⟩, hinformedC inv hinv⟩
    have hsnapshot := h.snapshot
    cases hphase : c.initializing N with
    | returned status =>
      rw [hphase] at hok hsnapshot
      exact (hsnapshot hok key hmissed).2 fun value hpending => hpending
    | _ =>
      rw [hphase] at hok
      exact hok.elim

/-- A step that loses nothing leaves every acceptance of `N`. -/
theorem accepted_step (horigins : Origins c) {act : Action}
    (hrecovers : c.RecoversBeside C N n act) (hloses : c.LosesNothing C N n act)
    (hstep : c.step act = some c') {key : String} {r : Int}
    (haccepted : c.acceptedAt N key r ≠ none) : c'.acceptedAt N key r ≠ none := by
  have hcrash : ∀ a, act ≠ .crash a := by
    rintro a rfl
    exact hrecovers
  rw [horigins.acceptedAt_step hstep hcrash]
  split
  · rename_i a' key' r' new hhanding
    split
    · rename_i hat
      obtain ⟨rfl, rfl, rfl⟩ := hat
      cases act with
      | paxos act =>
        obtain ⟨op, rfl⟩ := handingOver_paxos hhanding
        exact Option.some_ne_none op
      | initializeServer server step =>
        by_cases hadd : ∃ index, step = .addPaxosLog index
        · obtain ⟨index, rfl⟩ := hadd
          have hundisputed : c.Undisputed (.initializeServer server (.addPaxosLog index)) := hloses
          rintro rfl
          exact haccepted (hundisputed.handingOver_none hhanding)
        · rw [handingOver_eq_none fun index heq => hadd ⟨index, heq⟩] at hhanding
          cases hhanding
      | electNewCoordinator server context => cases hhanding
      | crash server => cases hhanding
    · exact haccepted
  · exact haccepted

/-- A server that has crashed is fresh. -/
theorem fresh_of_crash {setup : System → Prop} {server : Addr}
    (h : (cluster setup).Reachable (fun _ _ => True) c) (hcrash : c' ∈ c.step (.crash server)) :
    (cluster setup).Reachable (fun _ _ => True) c' ∧
      (c'.system.servers server).kvDb = {} ∧ c'.initializing server = .idle := by
  have hstep : (cluster setup).step c (.crash server) = some c' := hcrash
  refine ⟨h.next trivial hstep, ?_⟩
  cases hcrash
  constructor
  · show (Function.update c.system.servers server (restarted (c.system.servers server))
      server).kvDb = {}
    rw [Function.update_self]
    rfl
  · show Function.update (fun a => interrupted server (c.initializing a)) server .idle server = _
    rw [Function.update_self]

/-- `a` has elected itself and stored an entry. -/
def firstEntry : List Action :=
  firstStart ++ [.paxos (.start "a" (.put "k" "x"))] ++ wholeRun 1 2

/-- `b` finds `a`, while a `PutPair` on the entry is on its way to `a`. -/
def findsCoordinator : List Action :=
  [.initializeServer "b" .start, .initializeServer "b" (.ask .delivered),
    .initializeServer "b" (.ask .delivered), .initializeServer "b" .discovered,
    .paxos (.start "a" (.put "k" "y"))]

/-- `b` writes its entry before it is informed of the new one. -/
def lateInform : List Action :=
  findsCoordinator ++ [.initializeServer "b" .copyDataMap] ++
  (PaxosKVStore.Action.loop 2 2).map .paxos ++
  [.initializeServer "b" .copyPaxosLogs, .initializeServer "b" (.setValue 0)] ++
  (PaxosKVStore.Action.loop 2 2 ++ PaxosKVStore.Action.loop 2 2 ++
    PaxosKVStore.Action.loop 2 2).map .paxos ++
  [.initializeServer "b" (.addPaxosLog 0), .initializeServer "b" (.addPaxosLog 0),
    .initializeServer "b" .finish]

/-- `a` copies its logs when the new round is logged and not yet accepted.
`b` is informed, and only then goes on with its snapshot. -/
def earlyInform : List Action :=
  findsCoordinator ++
  (PaxosKVStore.Action.loop 2 2 ++ PaxosKVStore.Action.loop 2 2).map .paxos ++
  [.initializeServer "b" .copyDataMap, .initializeServer "b" .copyPaxosLogs] ++
  (PaxosKVStore.Action.loop 2 2 ++ PaxosKVStore.Action.loop 2 2).map .paxos

/-- `b` writes its snapshot. -/
def writesSnapshot : List Action :=
  [.initializeServer "b" (.setValue 0), .initializeServer "b" (.addPaxosLog 0),
    .initializeServer "b" (.addPaxosLog 0), .initializeServer "b" (.addPaxosLog 0),
    .initializeServer "b" .finish]

end Cluster

end PaxosKVStore
