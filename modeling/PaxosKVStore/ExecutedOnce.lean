import PaxosKVStore.ClientCalls
import PaxosKVStore.CoordinatorStub

/-!
# How often the update of a client is executed

Every update that a server runs is an invocation of one of the client calls.
A server makes no difference between a request and its second forward.  The
first forward may report `UNAVAILABLE` or `DEADLINE_EXCEEDED` while its handler
goes on, and then two invocations execute the request.  `Retried` is this
case, and `executed_once_unless_retried` says that there is no other.
-/

namespace PaxosKVStore

/-! ## Whose invocations there are -/

namespace Cluster

variable {c c' : Cluster} {run : Nat} {inv : Invocation}

/-- An update that runs after a step ran before, or the step starts it. -/
theorem update_runs_back (horigins : Origins c) {σ : System} {act : PaxosKVStore.Action}
    (hstep : System.StepCases c.system act σ) (hrun : σ.runs[run]? = some inv)
    (hupdate : inv.request.IsUpdate) :
    (∃ old, c.system.runs[run]? = some old ∧ old.request.IsUpdate) ∨
      ∃ server context, act = .start server inv.request context ∧
        inv.request.refusal context = none ∧ run = c.system.runs.length := by
  rcases System.step_runs_back horigins.provenance.wf hstep hrun with
    ⟨old, hold, hevolves⟩ | ⟨server, request, context, hact, hrefusal, hlength, rfl⟩
  · exact Or.inl ⟨old, hold, hevolves.request ▸ hupdate⟩
  · exact Or.inr ⟨server, context, hact, hrefusal, hlength⟩

/-- An election is not an update. -/
theorem election_runs_back (horigins : Origins c) {server callee : Addr}
    {context : ServerContext}
    (hrun : (c.system.start callee (ownElection (c.system.servers server)) context).runs[run]? =
      some inv) (hupdate : inv.request.IsUpdate) :
    ∃ old, c.system.runs[run]? = some old ∧ old.request.IsUpdate := by
  rcases update_runs_back horigins (start_cases ..) hrun hupdate with
    hold | ⟨server', context', hact, _⟩
  · exact hold
  · injection hact with _ hrequest
    rw [← hrequest] at hupdate
    exact hupdate.elim

/-- A step that handles no call of a client starts no update. -/
theorem own_runs_back {act : Action} (horigins : Origins c) (hown : KeyValueStore.Own act)
    (hstep : StepCases c act c') (hrun : c'.system.runs[run]? = some inv)
    (hupdate : inv.request.IsUpdate) :
    ∃ old, c.system.runs[run]? = some old ∧ old.request.IsUpdate := by
  cases hstep with
  | paxos hpermits hpaxos =>
    rcases update_runs_back horigins (System.step_cases hpaxos) hrun hupdate with
      hold | ⟨server, context, rfl, _⟩
    · exact hold
    · exact hown.elim
  | electNewCoordinator hlisted => exact election_runs_back horigins hrun hupdate
  | elect hphase hlisted => exact election_runs_back horigins hrun hupdate
  | _ => exact ⟨inv, hrun, hupdate⟩

/-- A call that arrives starts its own update only. -/
theorem arrival_runs_back (horigins : Origins c) {out : Outgoing} {server : Addr}
    {context : ServerContext} (hstep : c.step (out.arrival server context) = some c')
    (hrun : c'.system.runs[run]? = some inv) (hupdate : inv.request.IsUpdate) :
    (∃ old, c.system.runs[run]? = some old ∧ old.request.IsUpdate) ∨
      out.request.IsUpdate ∧ out.request.refusal context = none ∧
        run = c.system.runs.length := by
  unfold Outgoing.arrival at hstep
  split at hstep
  · cases step_cases hstep with
    | electNewCoordinator hlisted => exact Or.inl (election_runs_back horigins hrun hupdate)
  · cases step_cases hstep with
    | paxos hpermits hpaxos =>
      rcases update_runs_back horigins (System.step_cases hpaxos) hrun hupdate with
        hold | ⟨server', context', hact, hrefusal, hlength⟩
      · exact Or.inl hold
      · injection hact with _ hrequest hcontext
        rw [hrequest, hcontext]
        exact Or.inr ⟨hupdate, hrefusal, hlength⟩

end Cluster

namespace KeyValueStore

/-- Every update that a server runs is of a client call. -/
def Attributed (s : KeyValueStore) : Prop :=
  ∀ (run : Nat) (inv : Invocation), s.cluster.system.runs[run]? = some inv →
    inv.request.IsUpdate → ∃ call ∈ s.calls, run ∈ call.invocations

variable {setup : System → Prop} {s s' : KeyValueStore}

/-- A step that starts no update and loses no invocation of a call. -/
theorem Attributed.keep (h : s.Attributed)
    (hcalls : ∀ call ∈ s.calls, ∃ call' ∈ s'.calls, call.invocations ⊆ call'.invocations)
    {run : Nat} {old : Invocation} (hold : s.cluster.system.runs[run]? = some old)
    (hupdate : old.request.IsUpdate) : ∃ call ∈ s'.calls, run ∈ call.invocations := by
  obtain ⟨call, hcall, hrun⟩ := h run old hold hupdate
  obtain ⟨call', hcall', hsub⟩ := hcalls call hcall
  exact ⟨call', hcall', hsub hrun⟩

/-- A call that changes loses no invocation. -/
theorem setCall_keeps {i : Nat} {call call' : ClientCall} (hcall : s.calls[i]? = some call)
    (hsub : call.invocations ⊆ call'.invocations) :
    ∀ old ∈ s.calls, ∃ new ∈ (s.setCall i call').calls, old.invocations ⊆ new.invocations := by
  intro old hold
  obtain ⟨k, hk⟩ := List.mem_iff_getElem?.mp hold
  by_cases heq : i = k
  · subst heq
    cases hcall.symm.trans hk
    exact ⟨call', List.mem_set (List.getElem?_eq_some_iff.mp hcall).1 call', hsub⟩
  · refine ⟨old, List.mem_iff_getElem?.mpr ⟨k, ?_⟩, fun _ hrun => hrun⟩
    exact (List.getElem?_set_ne heq).trans hk

end KeyValueStore

namespace ClientCall

theorem mem_invocations {call : ClientCall} {run : Nat} : run ∈ call.invocations ↔
    ∃ out ∈ call.outgoing, out.request.IsUpdate ∧ out.handling = .running run := by
  unfold invocations forwarded
  simp only [List.mem_filterMap, List.mem_filter, decide_eq_true_eq, and_assoc]
  refine exists_congr fun out => and_congr_right fun _ => and_congr_right fun _ => ?_
  unfold Outgoing.run
  split
  · rename_i hhandling
    simp [hhandling]
  · rename_i hhandling
    simpa using hhandling run

theorem invocations_go {call call' : ClientCall} {s : MultiPaxosServiceImpl} {outcome : Answer}
    (h : call.go s outcome = some call') : call.invocations ⊆ call'.invocations := by
  obtain ⟨flow, _, rfl⟩ := Option.map_eq_some_iff.mp h
  intro run hrun
  obtain ⟨out, hout, hrunning⟩ := mem_invocations.mp hrun
  exact mem_invocations.mpr ⟨out, List.mem_append_left _ hout, hrunning⟩

theorem invocations_giveUp (call : ClientCall) : call.invocations ⊆ call.giveUp.invocations := by
  intro run hrun
  obtain ⟨out, hout, hrunning⟩ := mem_invocations.mp hrun
  rcases call.giveUp_cases with ⟨_, hsame⟩ | ⟨others, last, hlast, hgiveUp⟩
  · rw [hsame]
    exact hrun
  · rw [mem_invocations, hgiveUp]
    rw [hlast] at hout
    rcases List.mem_append.mp hout with hold | hnew
    · exact ⟨out, List.mem_append_left _ hold, hrunning⟩
    · cases List.mem_singleton.mp hnew
      exact ⟨_, List.mem_append_right _ (List.mem_singleton.mpr rfl), hrunning⟩

/-- A call that arrives was not handled before. -/
theorem invocations_arrive {call : ClientCall} {j : Nat} {out : Outgoing}
    (hout : call.outgoing[j]? = some out) (hnew : out.handling = .onItsWay)
    (context : ServerContext) (run : Nat) : call.invocations ⊆
      ({ call with outgoing := call.outgoing.set j (out.handled context run) } :
        ClientCall).invocations := by
  intro run' hrun
  obtain ⟨old, hold, hupdate, hrunning⟩ := mem_invocations.mp hrun
  obtain ⟨k, hk⟩ := List.mem_iff_getElem?.mp hold
  refine mem_invocations.mpr ⟨old, List.mem_iff_getElem?.mpr ⟨k, ?_⟩, hupdate, hrunning⟩
  refine (List.getElem?_set_ne fun heq => ?_).trans hk
  subst heq
  cases hout.symm.trans hk
  rw [hnew] at hrunning
  cases hrunning

end ClientCall

namespace KeyValueStore

variable {setup : System → Prop} {s s' : KeyValueStore}

theorem attributed_step (horigins : s.cluster.Origins) (h : s.Attributed)
    (hstep : StepCases s s') : s'.Attributed := by
  intro run inv hrun hupdate
  cases hstep with
  | @cluster act c hown hcluster =>
    obtain ⟨old, hold, hupdate⟩ :=
      Cluster.own_runs_back horigins hown (Cluster.step_cases hcluster) hrun hupdate
    refine h.keep (fun call hcall => ⟨_, List.mem_map_of_mem hcall, ?_⟩) hold hupdate
    unfold stopOn
    split <;> exact fun _ hrun => hrun
  | request hnew =>
    refine h.keep (fun call hcall => ⟨call, List.mem_append_left _ hcall, ?_⟩) hrun hupdate
    exact fun _ hrun => hrun
  | go hcall hgo hheard =>
    exact h.keep (setCall_keeps hcall (ClientCall.invocations_go hgo)) hrun hupdate
  | @fail i call call' service outcome hcall hgo =>
    refine h.keep (setCall_keeps hcall ?_) hrun hupdate
    exact fun _ hrun => ClientCall.invocations_go hgo (call.invocations_giveUp hrun)
  | @arrive i j call out context c hcall hout hnew hcluster =>
    rcases Cluster.arrival_runs_back horigins hcluster hrun hupdate with
      ⟨old, hold, hupdate⟩ | ⟨hupdate, hrefusal, rfl⟩
    · exact h.keep (setCall_keeps (s := { s with cluster := c }) hcall
        (ClientCall.invocations_arrive hout hnew context _)) hold hupdate
    · refine ⟨_, List.mem_set (List.getElem?_eq_some_iff.mp hcall).1 _, ?_⟩
      refine ClientCall.mem_invocations.mpr
        ⟨_, List.mem_set (List.getElem?_eq_some_iff.mp hout).1 _, hupdate, ?_⟩
      simp only [Outgoing.handled, hrefusal]

theorem attributed_of_reachable (h : (keyValueStore setup).Reachable (fun _ _ => True) s) :
    s.Attributed := by
  refine h.invariant (I := Attributed) ?_ ?_
  · intro s hinit run inv hrun
    simp [hinit.1.1.system.runs] at hrun
  · intro s act s' hreach _ hstep hattributed
    exact attributed_step (Cluster.origins_of_reachable (cluster_reachable hreach)) hattributed
      (step_cases hstep)

end KeyValueStore

/-! ## How often an update is executed -/

namespace System

/-- The invocation `run` has reached its `Inform` phase. -/
def Informs (σ : System) (run : Nat) : Prop := ∃ inv ∈ σ.runs[run]?, inv.Committed

instance (σ : System) (run : Nat) : Decidable (σ.Informs run) :=
  inferInstanceAs (Decidable (∃ inv ∈ σ.runs[run]?, inv.Committed))

/-- A replica has handled an `Inform` of the invocation `run`. -/
def Executed (σ : System) (run : Nat) : Prop :=
  ∃ receiver request reply dataChanged,
    Event.handled run receiver (.inform request) reply dataChanged ∈ σ.history

end System

namespace ClientCall

/-- The first forward failed although its handler entered `RunPaxos`, and
after an election that was won the request was forwarded again. -/
def Retried (call : ClientCall) : Prop :=
  ∃ first second before stub after, call.forwarded = [first, second] ∧ first.failed = true ∧
    first.run ≠ none ∧ call.flow.trace = before ++ .forward stub :: after ∧
    Flow.Retries before

variable {σ : System} {call : ClientCall}

theorem Known.length_forwarded (h : call.Known σ) :
    call.forwarded.length = call.flow.made.count true := by
  rw [← h.made, List.count, List.countP_map, forwarded, List.countP_eq_length_filter]
  congr 2
  funext out
  simp

end ClientCall

/-- A flow forwards again only after an election that was won. -/
theorem Flow.made_cases {sound : Prop} {myPaxosAddress : Addr} {flow : Flow}
    (h : Course sound myPaxosAddress flow.phase flow.trace) :
    flow.made.count true ≤ 1 ∨
      flow.made = [true, false, true] ∧
        ∃ before stub after, flow.trace = before ++ .forward stub :: after ∧ Retries before := by
  obtain ⟨phase, trace⟩ := flow
  dsimp only at h
  cases h with
  | first hphase =>
    left
    rcases hphase with rfl | rfl <;> exact Nat.zero_le 1
  | @nominating own stub status hunavailable hown =>
    left
    cases own <;> exact Nat.le_refl 1
  | elected hunavailable hphase =>
    left
    rcases hphase with rfl | rfl <;> exact Nat.le_refl 1
  | forwardingAgain hunavailable hok =>
    exact Or.inr ⟨rfl, _, _, [], rfl, _, _, _, rfl, hunavailable, hok⟩
  | answeredAgain hunavailable hok hanswer =>
    exact Or.inr ⟨rfl, _, _, [_], rfl, _, _, _, rfl, hunavailable, hok⟩
  | notSet hnot => exact Or.inl (Nat.zero_le 1)
  | _ => exact Or.inl (Nat.le_refl 1)

namespace ClientCall

variable {σ : System} {call : ClientCall}

theorem Known.length_forwarded_le (h : call.Known σ) : call.forwarded.length ≤ 2 := by
  rw [h.length_forwarded]
  rcases Flow.made_cases h.course with hone | ⟨hmade, _⟩
  · omega
  · rw [hmade]
    exact Nat.le_refl 2

theorem length_invocations_le (call : ClientCall) :
    call.invocations.length ≤ call.forwarded.length := List.length_filterMap_le ..

/-- Where both forwards entered `RunPaxos`, the first one was given up. -/
theorem Known.retried (h : call.Known σ) (htwo : 2 ≤ call.invocations.length) :
    call.Retried := by
  have hlength := call.length_invocations_le
  have hcount := h.length_forwarded
  rcases Flow.made_cases h.course with hone | ⟨hmade, before, stub, after, htrace, hretries⟩
  · omega
  have hout := h.made
  rw [hmade] at hout
  obtain ⟨first, rest, houtgoing, hfirst, hrest⟩ := List.map_eq_cons_iff.mp hout
  obtain ⟨election, rest, rfl, helection, hrest⟩ := List.map_eq_cons_iff.mp hrest
  obtain ⟨second, rest, rfl, hsecond, hrest⟩ := List.map_eq_cons_iff.mp hrest
  cases List.map_eq_nil_iff.mp hrest
  have hforwarded : call.forwarded = [first, second] := by
    rw [forwarded, houtgoing]
    simp [hfirst, helection, hsecond]
  refine ⟨first, second, before, stub, after, hforwarded, ?_, fun hnone => ?_, htrace, hretries⟩
  · obtain ⟨stub', status, election', rfl, hunavailable, _⟩ := hretries
    exact h.failed stub' status _ htrace hunavailable first (by rw [houtgoing]; rfl)
  · rw [invocations, hforwarded, List.filterMap_cons_none hnone] at htwo
    have := List.length_filterMap_le Outgoing.run [second]
    rw [List.length_singleton] at this
    omega

/-- The invocations of a call are of its request. -/
theorem Known.invocation (h : call.Known σ) {run : Nat} (hrun : run ∈ call.invocations) :
    ∃ inv, σ.runs[run]? = some inv ∧ inv.request = call.request := by
  obtain ⟨out, hmem, hupdate, hhandling⟩ := mem_invocations.mp hrun
  have hout := h.outgoing out hmem
  obtain ⟨inv, hinv, hrequest⟩ := hout.running run hhandling
  exact ⟨inv, hinv, (hrequest hupdate).trans (hout.request hupdate)⟩

end ClientCall

/-- At most two invocations are made for a call of a client.  Unless it was
retried with its first forward in `RunPaxos`, one at the most comes to its
`Inform` phase, and all executions of the update are its own. -/
theorem KeyValueStore.executed_once_unless_retried {setup : System → Prop} {s : KeyValueStore}
    (h : (keyValueStore setup).Reachable (fun _ _ => True) s) {call : ClientCall}
    (hcall : call ∈ s.calls) :
    (∀ run ∈ call.invocations, ∃ inv,
      s.cluster.system.runs[run]? = some inv ∧ inv.request = call.request) ∧
    call.invocations.length ≤ 2 ∧
    (¬ call.Retried →
      (call.invocations.filter fun run => s.cluster.system.Informs run).length ≤ 1 ∧
      ∀ run ∈ call.invocations, ∀ run' ∈ call.invocations,
        s.cluster.system.Executed run → s.cluster.system.Executed run' → run = run') := by
  have hknown := known_of_reachable h call hcall
  have htwo := call.length_invocations_le.trans hknown.length_forwarded_le
  refine ⟨fun run => hknown.invocation, htwo, fun hnot => ?_⟩
  have hone : call.invocations.length ≤ 1 := by
    by_contra hmore
    exact hnot (hknown.retried (by omega))
  refine ⟨(List.length_filter_le ..).trans hone, fun run hrun run' hrun' _ _ => ?_⟩
  obtain ⟨only, honly⟩ | hnil : (∃ only, call.invocations = [only]) ∨ call.invocations = [] := by
    rcases Nat.le_one_iff_eq_zero_or_eq_one.mp hone with hzero | hone
    · exact Or.inr (List.length_eq_zero_iff.mp hzero)
    · exact Or.inl (List.length_eq_one_iff.mp hone)
  · rw [honly, List.mem_singleton] at hrun hrun'
    exact hrun.trans hrun'.symm
  · rw [hnil] at hrun
    cases hrun

namespace KeyValueStore

/-- The only server starts and recovers from itself. -/
def startsAlone : List Cluster.Action :=
  Cluster.electsItself ++ (PaxosKVStore.Action.loop 0 1).map .paxos ++
    [.initializeServer "a" .elected, .initializeServer "a" .copyDataMap,
      .initializeServer "a" .copyPaxosLogs, .initializeServer "a" (.addPaxosLog 0),
      .initializeServer "a" .finish]

/-- A whole run of `RunPaxos` with one replica. -/
def wholeRun (run : Nat) : List Action := (Cluster.wholeRun run 1).map .cluster

/-- The invocation `run` comes to its `Inform` phase. -/
def upToInform (run : Nat) : List Action :=
  (PaxosKVStore.Action.loop run 1 ++ PaxosKVStore.Action.loop run 1 ++
    PaxosKVStore.Action.loop run 1).map fun act => .cluster (.paxos act)

/-- The first client is slow: the deadline of its first forward passes while
the handler informs.  Its server elects itself again, and before the second
forward arrives the second client has its answer. -/
def slowClient : List Action :=
  startsAlone.map .cluster ++
  [.request "a" (.put "k" "x"), .step 0, .step 0, .arrive 0 0] ++ upToInform 1 ++
  [.fail 0 { code := .deadlineExceeded }, .step 0] ++
  (PaxosKVStore.Action.loop 1 1).map (fun act => .cluster (.paxos act)) ++
  [.arrive 0 1] ++ wholeRun 2 ++ [.answer 0, .step 0, .step 0] ++
  [.request "a" (.put "k" "y"), .step 1, .step 1, .arrive 1 0] ++ wholeRun 3 ++ [.answer 1]

/-- The second forward. -/
def secondForward : List Action := [.arrive 0 2] ++ wholeRun 4 ++ [.answer 0]

/-- One server, with no request so far. -/
def oneServer : KeyValueStore := { cluster := Cluster.fresh ["a"] }

/-- The second client was told that its value is written. -/
def Written (s : KeyValueStore) : Prop :=
  s.calls.map ClientCall.request = [.put "k" "x", .put "k" "y"] ∧
    (∃ call ∈ s.calls[1]?, call.flow.phase = .returned { status := .OK }) ∧
    (s.cluster.system.db "a").dataMap.lookup "k" = some "y"

instance (s : KeyValueStore) : Decidable s.Written := inferInstanceAs (Decidable (_ ∧ _ ∧ _))

/-- Two invocations of the first client were informed, and its value is back. -/
def Overwritten (s : KeyValueStore) : Prop :=
  s.calls.map ClientCall.request = [.put "k" "x", .put "k" "y"] ∧
    (∃ call ∈ s.calls[0]?, call.flow.phase = .returned { status := .OK } ∧
      (call.invocations.filter fun run => s.cluster.system.Informs run).length = 2) ∧
    (s.cluster.system.db "a").dataMap.lookup "k" = some "x"

instance (s : KeyValueStore) : Decidable s.Overwritten := inferInstanceAs (Decidable (_ ∧ _ ∧ _))

theorem oneServer_isInitial :
    (keyValueStore (System.SharesReplicas (.ofReplicas ["a"]))).isInitial oneServer :=
  ⟨⟨Cluster.fresh_isInitial ["a"], fun _ => rfl⟩, rfl⟩

set_option maxRecDepth 40000 in
theorem slowClient_exec :
    ∃ s ∈ (keyValueStore (System.SharesReplicas (.ofReplicas ["a"]))).execWhere
      (fun _ _ => True) oneServer slowClient,
      s.Written ∧
      (∃ call ∈ s.calls[1]?, call.request = .put "k" "y" ∧ call.invocations ≠ [] ∧
        call.forwarded.length = 1) ∧
      ∃ s' ∈ ((keyValueStore (System.SharesReplicas (.ofReplicas ["a"]))).startingAt s).execWhere
        (fun _ _ => True) s secondForward, s'.Overwritten := by
  decide +kernel

/-- The second client was not retried. -/
theorem executed_once_unless_retried_written : ∃ (s : KeyValueStore) (call : ClientCall),
    call ∈ s.calls ∧ call.request = .put "k" "y" ∧ call.invocations ≠ [] ∧
      (call.invocations.filter fun run => s.cluster.system.Informs run).length ≤ 1 := by
  obtain ⟨s, hexec, _, ⟨call, hcall, hrequest, hentered, hone⟩, _⟩ := slowClient_exec
  have hmem := List.mem_of_getElem? hcall
  have hnot : ¬ call.Retried := by
    rintro ⟨first, second, before, stub, after, hforwarded, _⟩
    rw [hforwarded] at hone
    cases hone
  exact ⟨s, call, hmem, hrequest, hentered,
    ((executed_once_unless_retried (.of_execWhere (.start oneServer_isInitial) hexec)
      hmem).2.2 hnot).1⟩

/-- The first forward reported DEADLINE_EXCEEDED and was executed, and the
second one is executed after the write of the other client. -/
theorem not_executed_once_overwritten : ∃ s s' : KeyValueStore,
    (keyValueStore (System.SharesReplicas (.ofReplicas ["a"]))).Reachable (fun _ _ => True) s ∧
      s.Written ∧
      ((keyValueStore (System.SharesReplicas (.ofReplicas ["a"]))).startingAt s).Reachable
        (fun _ _ => True) s' ∧
      s'.Overwritten := by
  obtain ⟨s, hexec, hwritten, _, s', hexec', hoverwritten⟩ := slowClient_exec
  exact ⟨s, s', .of_execWhere (.start oneServer_isInitial) hexec, hwritten,
    .of_execWhere (.start rfl) hexec', hoverwritten⟩

end KeyValueStore

end PaxosKVStore
