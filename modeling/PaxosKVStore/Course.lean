import PaxosKVStore.Quorums

/-!
# The course of an invocation whose live replicas all answer

An invocation visits the replicas in the order of the list.  If those that
answer its first loop also promise, accept and learn, then it is `OnCourse`:
its lists of promises and acceptances are what its loops have gone through, and
it returns OK.

`Informed` says which servers its last loop has reached.  The lemmas after it
say what a call leaves at its receiver: the round that it logs and the
operation that it executes.
-/

namespace PaxosKVStore

open MultiPaxosServiceImpl (Rejects)

namespace Invocation

/-- The replicas that a loop over `replicas` reaches. -/
def reached (live replicas : List Addr) : List Addr :=
  replicas.filter (· ∈ live)

/-- The loops visit the replicas in order; the live ones answer the first loop,
and promise and accept in the next two. -/
def OnCourse (live replicas : List Addr) (inv : Invocation) : Prop :=
  match inv.phase with
  | .ping todo => ∃ seen, replicas = seen ++ todo ∧ inv.livePaxosStubs = reached live seen ∧
      inv.promisedBy = [] ∧ inv.acceptedBy = []
  | .prepare todo => inv.livePaxosStubs = reached live replicas ∧
      inv.promisedBy ++ todo = reached live replicas ∧ inv.acceptedBy = []
  | .propose todo => inv.livePaxosStubs = reached live replicas ∧
      inv.promisedBy = reached live replicas ∧ inv.acceptedBy ++ todo = reached live replicas
  | .inform todo => inv.livePaxosStubs = reached live replicas ∧
      inv.promisedBy = reached live replicas ∧ inv.acceptedBy = reached live replicas ∧
      ∃ seen, seen ++ todo = reached live replicas
  | .returned status => inv.livePaxosStubs = reached live replicas ∧
      inv.promisedBy = reached live replicas ∧ inv.acceptedBy = reached live replicas ∧
      status.ok = true

variable {live replicas : List Addr} {inv inv' : Invocation}

theorem mem_reached {a : Addr} : a ∈ reached live replicas ↔ a ∈ replicas ∧ a ∈ live := by
  rw [reached, List.mem_filter, decide_eq_true_iff]

/-- The next replica of a later loop is live. -/
theorem OnCourse.next_live (h : inv.OnCourse live replicas) {addr : Addr} {msg : Message}
    (hcall : inv.Calls addr msg) (hmsg : msg ≠ .ping) : addr ∈ live := by
  have hreached : ∀ {seen todo : List Addr}, seen ++ addr :: todo = reached live replicas →
      addr ∈ live := by
    intro seen todo heq
    have hmem : addr ∈ reached live replicas := by
      rw [← heq]
      simp
    exact (mem_reached.mp hmem).2
  cases hcall with
  | ping hphase => exact absurd rfl hmsg
  | prepare hphase =>
    rw [OnCourse, hphase] at h
    exact hreached h.2.1
  | propose hphase =>
    rw [OnCourse, hphase] at h
    exact hreached h.2.2
  | inform hphase =>
    rw [OnCourse, hphase] at h
    obtain ⟨seen, hseen⟩ := h.2.2.2
    exact hreached hseen

/-- A call to a server that is not live is a `Ping`. -/
theorem OnCourse.ping_of_dead (h : inv.OnCourse live replicas) {addr : Addr} {msg : Message}
    (hcall : inv.Calls addr msg) (hdead : addr ∉ live) :
    ∃ todo, inv.phase = .ping (addr :: todo) := by
  cases hcall with
  | ping hphase => exact ⟨_, hphase⟩
  | prepare hphase => exact absurd (h.next_live (.prepare hphase) nofun) hdead
  | propose hphase => exact absurd (h.next_live (.propose hphase) nofun) hdead
  | inform hphase => exact absurd (h.next_live (.inform hphase) nofun) hdead

/-- The loop goes on after it. -/
theorem OnCourse.lose (h : inv.OnCourse live replicas) {addr : Addr} {todo : List Addr}
    (hphase : inv.phase = .ping (addr :: todo)) (hdead : addr ∉ live) :
    ({ inv with phase := inv.phase.tail } : Invocation).OnCourse live replicas := by
  rw [OnCourse, hphase] at h
  obtain ⟨seen, hreplicas, hstubs, hpromised, haccepted⟩ := h
  simp only [OnCourse, hphase, Phase.tail]
  refine ⟨seen ++ [addr], by simp [hreplicas], ?_, hpromised, haccepted⟩
  rw [hstubs, reached, reached, List.filter_append]
  simp [hdead]

/-- While a replica is being pinged, it does not matter if it is live. -/
theorem OnCourse.congr_ping (h : inv.OnCourse live replicas) {live' : List Addr} {addr : Addr}
    {todo : List Addr} (hphase : inv.phase = .ping (addr :: todo)) (hnodup : replicas.Nodup)
    (hsame : ∀ a, a ≠ addr → (a ∈ live' ↔ a ∈ live)) : inv.OnCourse live' replicas := by
  rw [OnCourse, hphase] at h
  obtain ⟨seen, hreplicas, hstubs, hrest⟩ := h
  rw [OnCourse, hphase]
  refine ⟨seen, hreplicas, ?_, hrest⟩
  rw [hstubs, reached, reached]
  refine List.filter_congr fun a ha => ?_
  have hne : a ≠ addr := by
    rintro rfl
    rw [hreplicas, List.nodup_append] at hnodup
    exact hnodup.2.2 a ha a List.mem_cons_self rfl
  simp [hsame a hne]

/-- What follows a loop, if a replica is reached at all. -/
theorem OnCourse.advance (h : inv.OnCourse live replicas) (hwf : inv.Wf)
    (hne : reached live replicas ≠ []) (hadvance : inv.Advances inv') :
    inv'.OnCourse live replicas := by
  have hpos : 0 < (reached live replicas).length := List.length_pos_iff.mpr hne
  cases hadvance with
  | noneLive message hphase hlive =>
    rw [OnCourse, hphase] at h
    obtain ⟨seen, hreplicas, hstubs, _⟩ := h
    rw [List.append_nil] at hreplicas
    rw [hreplicas, ← hstubs, hlive] at hne
    exact absurd rfl hne
  | startPrepare hphase hlive =>
    rw [OnCourse, hphase] at h
    obtain ⟨seen, hreplicas, hstubs, hpromised, haccepted⟩ := h
    rw [List.append_nil] at hreplicas
    rw [← hreplicas] at hstubs
    simp [OnCourse, hstubs, hpromised, haccepted]
  | failedQuorum message hphase hcount =>
    rw [OnCourse, hphase] at h
    obtain ⟨hstubs, hpromised, _⟩ := h
    rw [List.append_nil] at hpromised
    rw [hwf.countPromised, hpromised, numOfAcceptors, hstubs] at hcount
    omega
  | startPropose hphase hcount =>
    rw [OnCourse, hphase] at h
    obtain ⟨hstubs, hpromised, haccepted⟩ := h
    rw [List.append_nil] at hpromised
    simp [OnCourse, hstubs, hpromised, haccepted]
  | failedConsensus message hphase hcount =>
    rw [OnCourse, hphase] at h
    obtain ⟨hstubs, _, haccepted⟩ := h
    rw [List.append_nil] at haccepted
    rw [hwf.countAccepted, haccepted, numOfAcceptors, hstubs] at hcount
    omega
  | startInform hphase hcount =>
    rw [OnCourse, hphase] at h
    obtain ⟨hstubs, hpromised, haccepted⟩ := h
    rw [List.append_nil] at haccepted
    simp only [OnCourse]
    exact ⟨hstubs, hpromised, haccepted, [], by rw [hstubs, List.nil_append]⟩
  | done hphase =>
    rw [OnCourse, hphase] at h
    obtain ⟨hstubs, hpromised, haccepted, _⟩ := h
    exact ⟨hstubs, hpromised, haccepted, rfl⟩

/-- A delivered call to a live server that does not fail at random. -/
theorem OnCourse.deliver (h : inv.OnCourse live replicas) {σ : System} {addr : Addr}
    {randomFail : Bool} {msg : Message} {reply : Reply} (hfail : ¬ Rejects inv.key randomFail)
    (hlive : addr ∈ live) (hdelivers : σ.Delivers inv addr randomFail msg reply inv') :
    inv'.OnCourse live replicas := by
  cases hdelivers with
  | ping hphase =>
    rw [OnCourse, hphase] at h
    obtain ⟨seen, hreplicas, hstubs, hpromised, haccepted⟩ := h
    refine ⟨seen ++ [addr], by simp [hreplicas], ?_, hpromised, haccepted⟩
    show inv.livePaxosStubs ++ [addr] = _
    rw [hstubs, reached, reached, List.filter_append]
    simp [hlive]
  | refuse hphase hno hreject => exact absurd hreject hfail
  | promise hphase hok hreject hlog hid =>
    rw [OnCourse, hphase] at h
    simpa [OnCourse] using h
  | adopt hphase hok hreject hlog hid hop hnone =>
    rw [OnCourse, hphase] at h
    simpa [OnCourse] using h
  | keep hphase hok hreject hlog hid hone =>
    rw [OnCourse, hphase] at h
    simpa [OnCourse] using h
  | reject hphase hno hreject => exact absurd hreject hfail
  | accept hphase hok =>
    rw [OnCourse, hphase] at h
    simpa [OnCourse] using h
  | inform hphase hiff =>
    rw [OnCourse, hphase] at h
    obtain ⟨hstubs, hpromised, haccepted, seen, hseen⟩ := h
    exact ⟨hstubs, hpromised, haccepted, seen ++ [addr], by simpa using hseen⟩

/-- Who proposes has the promises of all that it reaches. -/
theorem OnCourse.promisedBy (h : inv.OnCourse live replicas) (hproposed : inv.Proposed) :
    inv.promisedBy = reached live replicas := by
  unfold OnCourse at h
  unfold Proposed at hproposed
  split at h <;> simp_all

/-- Who informs calls all that it reaches. -/
theorem OnCourse.livePaxosStubs (h : inv.OnCourse live replicas) (hcommitted : inv.Committed) :
    inv.livePaxosStubs = reached live replicas := by
  unfold OnCourse at h
  unfold Committed at hcommitted
  split at h <;> simp_all

/-- A call that gets lost is taken as one that is not answered. -/
theorem Receives.ofLost {addr : Addr} {msg : Message} (hcall : inv.Calls addr msg) :
    inv.Receives addr msg none { inv with phase := inv.phase.tail } := by
  refine .skip hcall fun reply hreply => ?_
  cases hreply

section Informed

variable {a : Addr}

/-- The server `a` has been informed. -/
def Informed (inv : Invocation) (a : Addr) : Prop :=
  match inv.phase with
  | .inform todo => a ∈ inv.livePaxosStubs ∧ a ∉ todo
  | .returned status => status.ok = true ∧ a ∈ inv.livePaxosStubs
  | _ => False

theorem Informed.committed (h : inv.Informed a) : inv.Committed := by
  unfold Informed at h
  unfold Committed
  split at h <;> simp_all

theorem Informed.mem (h : inv.Informed a) : a ∈ inv.livePaxosStubs := by
  unfold Informed at h
  split at h
  · exact h.1
  · exact h.2
  · exact h.elim

theorem Advances.informed (hadvance : inv.Advances inv') (h : inv'.Informed a) :
    inv.Informed a := by
  cases hadvance with
  | noneLive message hphase hlive => exact absurd h.1 (by simp)
  | startPrepare hphase hlive => exact h.elim
  | failedQuorum message hphase hcount => exact absurd h.1 (by simp)
  | startPropose hphase hcount => exact h.elim
  | failedConsensus message hphase hcount => exact absurd h.1 (by simp)
  | startInform hphase hcount => exact absurd h.1 h.2
  | done hphase =>
    rw [Informed, hphase]
    exact ⟨h.2, List.not_mem_nil⟩

end Informed

end Invocation

/-! ## What a call leaves at its receiver -/

namespace System

variable {n : Nat} {σ σ' : System} {run : Nat} {inv inv' : Invocation} {receiver : Addr}
  {msg : Message} {reply : Reply} {randomFail : Bool}

theorem Delivers.informed {a : Addr}
    (hdelivers : σ.Delivers inv receiver randomFail msg reply inv') (h : inv'.Informed a) :
    inv.Informed a ∨ a = receiver ∧ inv.Committed := by
  cases hdelivers with
  | @inform todo status hphase hiff =>
    obtain ⟨hlive, hnot⟩ := h
    by_cases ha : a = receiver
    · exact Or.inr ⟨ha, by simp [Invocation.Committed, hphase]⟩
    · left
      rw [Invocation.Informed, hphase]
      exact ⟨hlive, fun hmem => hnot (List.mem_of_ne_of_mem ha hmem)⟩
  | _ => exact h.elim

theorem Delivers.promisedBy {a : Addr}
    (hdelivers : σ.Delivers inv receiver randomFail msg reply inv') (h : a ∈ inv'.promisedBy) :
    a ∈ inv.promisedBy ∨ a = receiver ∧ msg ≠ .ping := by
  cases hdelivers with
  | promise hphase hok hreject hlog hid => simpa using h
  | adopt hphase hok hreject hlog hid hop hnone => simpa using h
  | keep hphase hok hreject hlog hid hone => simpa using h
  | _ => exact Or.inl h

/-- Every call but a `Ping` logs the round of its invocation. -/
theorem logged_of_calls (hwf : inv.Wf) (hcall : inv.Calls receiver msg) (randomFail : Bool)
    (key : String) (r : Int) :
    r ∈ ((σ.servers receiver).handle {} randomFail msg).2.kvDb.rounds key ↔
      (msg ≠ .ping ∧ key = inv.key ∧ r = inv.round) ∨ r ∈ (σ.db receiver).rounds key := by
  have hhandled := MultiPaxosServiceImpl.handle_handled (σ.servers receiver) randomFail {} msg
  rw [hhandled.rounds, MultiPaxosServiceImpl.handle_logged]
  refine or_congr ?_ Iff.rfl
  cases hcall with
  | ping hphase => simp [Message.slot]
  | prepare hphase => simp [Message.slot, Invocation.prepareReq, eq_comm]
  | propose hphase => simp [Message.slot, Invocation.proposeReq, eq_comm]
  | inform hphase =>
    have hacceptance := (hwf.committed (by simp [Invocation.Committed, hphase])).2.2
    simp [Message.slot, Invocation.informReq, hacceptance, Invocation.acceptanceOf, eq_comm]

/-- The rounds at the servers after a delivered call. -/
theorem mem_rounds_deliver (hwf : inv.Wf) (hcall : inv.Calls receiver msg)
    (hservers : σ'.servers = Function.update σ.servers receiver
      ((σ.servers receiver).handle {} randomFail msg).2) (a : Addr) (key : String) (r : Int) :
    r ∈ (σ'.db a).rounds key ↔
      (a = receiver ∧ msg ≠ .ping ∧ key = inv.key ∧ r = inv.round) ∨
        r ∈ (σ.db a).rounds key := by
  rw [db, hservers]
  by_cases ha : a = receiver
  · subst ha
    rw [Function.update_self, logged_of_calls hwf hcall]
    simp
  · rw [Function.update_of_ne ha]
    simp [ha, db]

/-- The last loop executes the proposal, unless a higher round is logged. -/
theorem executed_of_calls (hwf : inv.Wf) (hcall : inv.Calls receiver msg) (randomFail : Bool) :
    msg.executed ((σ.servers receiver).handle {} randomFail msg).1 =
      if inv.Committed ∧ ¬ (σ.db receiver).Supersedes inv.key inv.round then
        some (inv.key, inv.proposal)
      else none := by
  cases hcall with
  | ping hphase => rw [if_neg (by simp [Invocation.Committed, hphase])]; rfl
  | prepare hphase => rw [if_neg (by simp [Invocation.Committed, hphase])]; rfl
  | propose hphase => rw [if_neg (by simp [Invocation.Committed, hphase])]; rfl
  | inform hphase =>
    have hcommitted : inv.Committed := by simp [Invocation.Committed, hphase]
    have hacceptance := (hwf.committed hcommitted).2.2
    have hiff := MultiPaxosServiceImpl.inform_ok_iff (σ.servers receiver) inv.informReq
    have hop : inv.informReq.acceptance.operation = inv.proposal := by
      rw [Invocation.informReq, hacceptance]
      rfl
    have hround : inv.informReq.acceptance.round = inv.round := by
      rw [Invocation.informReq, hacceptance]
      rfl
    rw [hround] at hiff
    show (if ((σ.servers receiver).inform {} inv.informReq).1.ok = true then
      some (inv.informReq.key, inv.informReq.acceptance.operation) else none) = _
    by_cases hlate : (σ.db receiver).Supersedes inv.key inv.round
    · rw [if_neg (fun hok => hiff.mp hok hlate), if_neg (fun h => h.2 hlate)]
    · rw [if_pos (hiff.mpr hlate), if_pos ⟨hcommitted, hlate⟩, hop]
      rfl

/-- The values at the servers after a delivered call. -/
theorem getValue_deliver (hwf : inv.Wf) (hcall : inv.Calls receiver msg)
    (hservers : σ'.servers = Function.update σ.servers receiver
      ((σ.servers receiver).handle {} randomFail msg).2) (a : Addr) (key : String) :
    (σ'.db a).getValue key =
      if (a = receiver ∧ key = inv.key) ∧ inv.Committed ∧
          ¬ (σ.db receiver).Supersedes inv.key inv.round then
        inv.proposal.effect ((σ.db a).getValue key)
      else (σ.db a).getValue key := by
  rw [db, hservers]
  by_cases ha : a = receiver
  · subst ha
    have hhandled := MultiPaxosServiceImpl.handle_handled (σ.servers a) randomFail {} msg
    rw [Function.update_self, hhandled.value, executed_of_calls hwf hcall]
    by_cases hexecutes : inv.Committed ∧ ¬ (σ.db a).Supersedes inv.key inv.round
    · simp only [true_and, hexecutes, and_true, not_false_eq_true]
      rfl
    · simp only [if_neg hexecutes]
      rw [if_neg fun h => hexecutes h.2]
      rfl
  · rw [Function.update_of_ne ha, if_neg fun h => ha h.1.1]
    rfl

/-- What holds of one of the invocations still does when one of them moves on. -/
theorem exists_run_set {P : Invocation → Prop} (hrun : σ.runs[run]? = some inv)
    (hmove : P inv → P inv')
    (h : ∃ (i : Nat) (other : Invocation), n ≤ i ∧ σ.runs[i]? = some other ∧ P other) :
    ∃ (i : Nat) (other : Invocation),
      n ≤ i ∧ (σ.runs.set run inv')[i]? = some other ∧ P other := by
  obtain ⟨i, other, hn, hi, hP⟩ := h
  by_cases hne : i = run
  · subst hne
    rw [hrun] at hi
    cases hi
    exact ⟨i, inv', hn, getElem?_set_self' hrun, hmove hP⟩
  · exact ⟨i, other, hn, by rw [List.getElem?_set_ne (Ne.symm hne)]; exact hi, hP⟩

end System

end PaxosKVStore
