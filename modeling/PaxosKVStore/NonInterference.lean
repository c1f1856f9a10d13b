import PaxosKVStore.Projection

/-!
# Keys do not interfere

The coordinator of a server is no entry of a key, but `Inform` sets it like
one of the reserved key.  `Reserved` says that no other key has an operation
that sets it, and then the coordinators of a run and of its part on the
reserved key agree.

`shadows_step` takes the steps of `Projects` together, and
`keys_do_not_interfere` is the result for whole runs.
-/

namespace PaxosKVStore

/-! ## The coordinator -/

/-- The message does not set a coordinator under another key. -/
def Message.Reserved : Message → Prop
  | .propose request => request.key ≠ "coordinator" → request.type ≠ .setCoordinator
  | .inform request => request.key ≠ "coordinator" → request.acceptance.type ≠ .setCoordinator
  | _ => True

theorem Message.Reserved.recorded {msg : Message} (h : msg.Reserved) {reply : Reply}
    {written : InformRequest} (hrecorded : msg.recorded reply = some written)
    (hkey : written.key ≠ "coordinator") : written.acceptance.type ≠ .setCoordinator := by
  cases msg with
  | propose request =>
    rw [Message.recorded] at hrecorded
    split at hrecorded
    · cases hrecorded
      exact h hkey
    · cases hrecorded
  | inform request =>
    rw [Message.recorded] at hrecorded
    split at hrecorded
    · cases hrecorded
    · cases hrecorded
      exact h hkey
  | _ => cases hrecorded

/-- Such a message leaves the coordinator alone, if it is about another key. -/
theorem Message.Reserved.coordinator {msg : Message} (h : msg.Reserved)
    (hslot : ∀ slot ∈ msg.slot, slot.1 ≠ "coordinator") {s s' : MultiPaxosServiceImpl}
    {reply : Reply} (hhandled : Handled s s' msg reply) :
    s'.paxosStubsMap.coordinator = s.paxosStubsMap.coordinator := by
  rw [hhandled.coordinator]
  cases msg with
  | inform request =>
    rw [Message.executed]
    split
    · rename_i heq
      split at heq
      · cases heq
        exact if_neg fun hset => h (hslot _ rfl) hset.1
      · cases heq
    · rfl
  | _ => rfl

namespace System

/-- Only under the reserved key is there an operation that sets a coordinator:
in the logs, at the invocations and in flight. -/
structure Reserved (σ : System) : Prop where
  logs : ∀ addr key r, key ≠ "coordinator" →
    ((σ.db addr).paxosLog key r).acceptedType ≠ .setCoordinator
  runs : ∀ (i : Nat) (inv : Invocation), σ.runs[i]? = some inv → inv.key ≠ "coordinator" →
    inv.request.setProposeValue.type ≠ .setCoordinator ∧
      inv.acceptedType ≠ .setCoordinator ∧ inv.acceptance.type ≠ .setCoordinator
  inFlight : ∀ entry ∈ σ.inFlight, entry.2.2.Reserved

section Reserved

variable {σ σ' : System}

theorem Reserved.calls (h : Reserved σ) {run : Nat} {inv : Invocation} {receiver : Addr}
    {msg : Message} (hrun : σ.runs[run]? = some inv) (hcall : inv.Calls receiver msg) :
    msg.Reserved := by
  have hinv := h.runs run inv hrun
  cases hcall with
  | ping hphase => trivial
  | prepare hphase => trivial
  | propose hphase =>
    intro hkey
    obtain ⟨hown, haccepted, _⟩ := hinv hkey
    show inv.proposal.type ≠ _
    unfold Invocation.proposal
    split
    · exact haccepted
    · exact hown
  | inform hphase => exact fun hkey => (hinv hkey).2.2

/-- A handled message leaves reserved logs behind. -/
theorem Reserved.log_handled (h : Reserved σ) {receiver : Addr} {s' : MultiPaxosServiceImpl}
    {msg : Message} {reply : Reply} (hmsg : msg.Reserved)
    (hhandled : Handled (σ.servers receiver) s' msg reply) {key : String} (r : Int)
    (hkey : key ≠ "coordinator") : (s'.kvDb.paxosLog key r).acceptedType ≠ .setCoordinator := by
  rw [hhandled.log]
  split
  · rename_i written hrecorded
    split
    · rename_i hat
      exact hmsg.recorded hrecorded (hat.1 ▸ hkey)
    · exact h.logs receiver key r hkey
  · exact h.logs receiver key r hkey

theorem reserved_step {act : Action} (h : Reserved σ) (hcond : ElectsOnReserved σ act)
    (hstep : StepCases σ act σ') : Reserved σ' := by
  cases hstep with
  | refuse hrefusal => exact ⟨h.logs, h.runs, h.inFlight⟩
  | @enter server request context hrefusal =>
    refine ⟨fun addr key r hkey => ?_, fun i inv hi hkey => ?_, h.inFlight⟩
    · by_cases ha : addr = server
      · subst ha
        simp only [System.db, Function.update_self, KeyValueDataBase.getLatestRound,
          KeyValueDataBase.paxosLog_touchKey]
        exact h.logs addr key r hkey
      · simp only [System.db, Function.update_of_ne ha]
        exact h.logs addr key r hkey
    · rcases getElem?_snoc_cases hi with ⟨_, rfl⟩ | hi
      · refine ⟨?_, by simp [Invocation.enter], by simp [Invocation.enter]⟩
        cases request with
        | put key value => simp [Invocation.enter, Request.setProposeValue]
        | delete key => simp [Invocation.enter, Request.setProposeValue]
        | electCoordinator key coordinator => exact absurd hcond hkey
      · exact h.runs i inv hi hkey
  | @call run inv receiver msg fate randomFail hrun hcall =>
    have hmsg := h.calls hrun hcall
    refine ⟨fun addr key r hkey => ?_, fun i inv' hi hkey => ?_, fun entry hentry => ?_⟩
    · by_cases hfate : fate = .delivered
      · subst hfate
        by_cases ha : addr = receiver
        · subst ha
          exact h.log_handled hmsg (σ.call_handled run inv addr msg randomFail) r hkey
        · rw [System.db, σ.call_other run inv msg randomFail ha]
          exact h.logs addr key r hkey
      · rw [System.db, σ.call_undelivered run inv receiver msg randomFail hfate]
        exact h.logs addr key r hkey
    · rw [call_runs] at hi
      rcases getElem?_set_cases hrun hi with ⟨_, rfl⟩ | ⟨_, hi⟩
      · rw [key_receive σ hcall randomFail fate] at hkey
        obtain ⟨hown, haccepted, hacceptance⟩ := h.runs run inv hrun hkey
        have hreceives := Invocation.receives_of_calls hcall
          (σ.callAnswer_answers receiver msg randomFail fate)
        generalize hanswer : σ.callAnswer receiver msg randomFail fate = answer at hreceives
        generalize inv.receive receiver answer = inv' at hreceives
        cases hreceives with
        | skip hcall hskip => exact ⟨hown, haccepted, hacceptance⟩
        | live hphase hok => exact ⟨hown, haccepted, hacceptance⟩
        | promise hphase hok hlow => exact ⟨hown, haccepted, hacceptance⟩
        | @promiseHigher todo status response hphase hok hhigh =>
          -- a promise carries what the acceptor has logged
          obtain ⟨_, hprepare⟩ := callAnswer_prepare _ _ _ _ hanswer
          have hresponse := (σ.servers receiver).prepare_response randomFail inv.prepareReq
            (by rw [hprepare]; exact hok)
          rw [hprepare] at hresponse
          refine ⟨hown, ?_, hacceptance⟩
          show response.type ≠ _
          rw [show response = _ from hresponse]
          split
          · exact h.logs receiver inv.key inv.round hkey
          · simp
        | accept hphase hok =>
          exact ⟨hown, haccepted, h.calls hrun (.propose hphase) hkey⟩
      · exact h.runs i inv' hi hkey
    · rw [call_inFlight] at hentry
      split at hentry
      · rcases List.mem_append.mp hentry with hentry | hentry
        · exact h.inFlight entry hentry
        · rw [List.mem_singleton.mp hentry]
          exact hmsg
      · exact h.inFlight entry hentry
  | @advance run inv inv' hrun hadvance =>
    refine ⟨fun addr key r hkey => ?_, fun i inv'' hi hkey => ?_, fun entry hentry => ?_⟩
    · rw [System.db, noteReturn_servers]
      exact h.logs addr key r hkey
    · rw [noteReturn_runs] at hi
      rcases getElem?_set_cases hrun hi with ⟨_, rfl⟩ | ⟨_, hi⟩
      · rw [key_advance hadvance] at hkey
        have hinv := h.runs run inv hrun hkey
        cases hadvance <;> exact hinv
      · exact h.runs i inv'' hi hkey
    · rw [noteReturn_inFlight] at hentry
      exact h.inFlight entry hentry
  | @arrive index run receiver msg context randomFail hindex =>
    have hmsg : msg.Reserved := h.inFlight _ (List.mem_of_getElem? hindex)
    refine ⟨fun addr key r hkey => ?_, h.runs,
      fun entry hentry => h.inFlight entry (List.mem_of_mem_eraseIdx hentry)⟩
    by_cases ha : addr = receiver
    · subst ha
      exact h.log_handled hmsg (σ.deliver_handled run addr msg context randomFail) r hkey
    · have hother := σ.deliver_other run msg context randomFail ha
      rw [System.db]
      simp only at hother ⊢
      rw [hother]
      exact h.logs addr key r hkey

end Reserved

/-! ## Whole runs -/

/-- `τ` is what is left of `σ`, with the same coordinators where they are
watched. -/
structure Shadows (Watched : Prop) (k : String) (σ τ : System) : Prop where
  projects : Projects k σ τ
  coordinators : Watched → ∀ addr, CoordinatorsAlike (τ.servers addr) (σ.servers addr)

section Shadows

variable {Watched : Prop} {k : String} {σ σ' τ : System}

/-- The same call on the key at both sets the same coordinator. -/
theorem coordinators_deliver (h : Projects k σ τ)
    (hcoordinators : ∀ addr, CoordinatorsAlike (τ.servers addr) (σ.servers addr))
    {receiver : Addr} {msg : Message} (hslot : ∀ slot ∈ msg.slot, slot.1 = k)
    (context : ServerContext) (randomFail : Bool) (addr : Addr) :
    CoordinatorsAlike
      (Function.update τ.servers receiver
        ((τ.servers receiver).handle context randomFail msg).2 addr)
      (Function.update σ.servers receiver
        ((σ.servers receiver).handle context randomFail msg).2 addr) := by
  by_cases ha : addr = receiver
  · subst ha
    rw [Function.update_self, Function.update_self]
    exact AlikeAt.coordinator_handle (h.servers addr).stubs (hcoordinators addr)
      ((h.servers addr).answer hslot context randomFail)
  · rw [Function.update_of_ne ha, Function.update_of_ne ha]
    exact hcoordinators addr

/-- A call on another key than the reserved one sets none. -/
theorem coordinators_deliver_other
    (hcoordinators : ∀ addr, CoordinatorsAlike (τ.servers addr) (σ.servers addr))
    {receiver : Addr} {msg : Message} (hmsg : msg.Reserved)
    (hslot : ∀ slot ∈ msg.slot, slot.1 ≠ "coordinator") (context : ServerContext)
    (randomFail : Bool) (addr : Addr) :
    CoordinatorsAlike (τ.servers addr)
      (Function.update σ.servers receiver
        ((σ.servers receiver).handle context randomFail msg).2 addr) := by
  by_cases ha : addr = receiver
  · subst ha
    rw [Function.update_self]
    exact (hcoordinators addr).trans
      (hmsg.coordinator hslot ((σ.servers addr).handle_handled randomFail context msg)).symm
  · rw [Function.update_of_ne ha]
    exact hcoordinators addr

/-- Reading a latest round sets none. -/
theorem coordinator_start (σ : System) (server : Addr) (request : Request)
    (context : ServerContext) (addr : Addr) :
    ((σ.start server request context).servers addr).paxosStubsMap =
      (σ.servers addr).paxosStubsMap := by
  unfold start
  split
  · rfl
  · by_cases ha : addr = server
    · subst ha
      simp only [Function.update_self]
    · simp only [Function.update_of_ne ha]

/-- A step of the whole run is the kept step of the erased run, or none. -/
theorem shadows_step (hnum : Numbered σ)
    (hwatched : Watched → k = "coordinator" ∧ Reserved σ) (h : Shadows Watched k σ τ)
    {act : Action} (hstep : σ.step act = some σ') :
    (keptAction k σ act = none ∧ Shadows Watched k σ' τ) ∨
      ∃ act' τ', keptAction k σ act = some act' ∧ τ.step act' = some τ' ∧
        Shadows Watched k σ' τ' := by
  obtain ⟨hprojects, hcoordinators⟩ := h
  cases act with
  | start server request context =>
    cases hstep
    by_cases hkey : request.key = k
    · refine Or.inr ⟨_, _, if_pos hkey, rfl, hprojects.start_kept hnum server context hkey,
        fun hw addr => ?_⟩
      rw [CoordinatorsAlike, coordinator_start, coordinator_start]
      exact hcoordinators hw addr
    · refine Or.inl ⟨if_neg hkey, hprojects.start_erased hnum server context hkey,
        fun hw addr => ?_⟩
      rw [CoordinatorsAlike, coordinator_start]
      exact hcoordinators hw addr
  | call run fate randomFail =>
    obtain ⟨inv, receiver, msg, hrun, hcall, rfl⟩ : ∃ inv receiver msg,
        σ.runs[run]? = some inv ∧ inv.Calls receiver msg ∧
          σ' = σ.call run inv receiver msg fate randomFail := by
      cases step_cases hstep with
      | call fate randomFail hrun hcall => exact ⟨_, _, _, hrun, hcall, rfl⟩
    have hslot := slot_of_calls hcall
    by_cases hkey : inv.key = k
    · obtain ⟨hposition, hrun'⟩ := hprojects.getElem? hrun hkey
      refine Or.inr ⟨_, _, by rw [keptAction, hposition]; rfl,
        step_call hrun' hcall fate randomFail,
        hprojects.call_kept hnum hrun hcall fate randomFail hkey, fun hw addr => ?_⟩
      rw [call_servers, call_servers]
      split
      · exact coordinators_deliver hprojects (hcoordinators hw)
          (fun slot hmem => (hslot slot hmem).trans hkey) {} randomFail addr
      · exact hcoordinators hw addr
    · refine Or.inl ⟨by rw [keptAction, position_of_ne hrun hkey]; rfl,
        hprojects.call_erased hnum hrun hcall fate randomFail hkey, fun hw addr => ?_⟩
      obtain ⟨rfl, hreserved⟩ := hwatched hw
      rw [call_servers]
      split
      · exact coordinators_deliver_other (hcoordinators hw) (hreserved.calls hrun hcall)
          (fun slot hmem heq => hkey ((hslot slot hmem).symm.trans heq)) {} randomFail addr
      · exact hcoordinators hw addr
  | advance run =>
    simp only [step] at hstep
    split at hstep
    · cases hstep
    · rename_i inv hrun
      split at hstep
      · cases hstep
      · rename_i inv' hnext
        cases hstep
        have hadvance := Invocation.advances_of_advance hnext
        by_cases hkey : inv.key = k
        · obtain ⟨hposition, hrun'⟩ := hprojects.getElem? hrun hkey
          refine Or.inr ⟨_, _, by rw [keptAction, hposition]; rfl,
            by simp only [step, hrun', hnext],
            hprojects.advance_kept hnum hrun hadvance hkey, fun hw addr => ?_⟩
          rw [noteReturn_servers, noteReturn_servers]
          exact hcoordinators hw addr
        · refine Or.inl ⟨by rw [keptAction, position_of_ne hrun hkey]; rfl,
            hprojects.advance_erased hnum hrun hadvance hkey, fun hw addr => ?_⟩
          rw [noteReturn_servers]
          exact hcoordinators hw addr
  | arrive index context randomFail =>
    obtain ⟨run, receiver, msg, hindex, rfl⟩ : ∃ run receiver msg,
        σ.inFlight[index]? = some (run, receiver, msg) ∧
          σ' = { σ.deliver run receiver msg context randomFail with
            inFlight := σ.inFlight.eraseIdx index } := by
      cases step_cases hstep with
      | arrive context randomFail hindex => exact ⟨_, _, _, hindex, rfl⟩
    have hmem := List.mem_of_getElem? hindex
    obtain ⟨inv, hrun, hslot⟩ := hnum.inFlight _ hmem
    by_cases hkey : inv.key = k
    · have hkept : keptCall k σ.runs (run, receiver, msg) =
          some (Kept.rank (Invocation.kept k) σ.runs run, receiver, msg) := by
        rw [keptCall, position_of_eq hrun hkey]
        rfl
      have hindex' := Kept.getElem?_filterMap hindex hkept
      rw [← hprojects.inFlight] at hindex'
      have hslot' : ∀ slot ∈ msg.slot, slot.1 = k := fun slot hmem =>
        (hslot slot hmem).trans hkey
      refine Or.inr ⟨_, _, by rw [keptAction, hindex, Option.bind_some, hkept]; rfl,
        by simp only [step, hindex'],
        hprojects.arrive_kept hindex hrun hkey hslot' context randomFail, fun hw addr => ?_⟩
      exact coordinators_deliver hprojects (hcoordinators hw) hslot' context randomFail addr
    · have hkept : keptCall k σ.runs (run, receiver, msg) = none := by
        rw [keptCall, position_of_ne hrun hkey]
        rfl
      have hslot' : ∀ slot ∈ msg.slot, slot.1 ≠ k := fun slot hmem heq =>
        hkey ((hslot slot hmem).symm.trans heq)
      refine Or.inl ⟨by rw [keptAction, hindex, Option.bind_some, hkept]; rfl,
        hprojects.arrive_erased hindex hrun hkey hslot' context randomFail, fun hw addr => ?_⟩
      obtain ⟨rfl, hreserved⟩ := hwatched hw
      exact coordinators_deliver_other (hcoordinators hw) (hreserved.inFlight _ hmem) hslot'
        context randomFail addr

theorem exec_cons (act : Action) (rest : List Action) :
    σ.exec (act :: rest) = (σ.step act).bind fun σ' => σ'.exec rest := rfl

/-- A step of the erased run, or none, before the rest of it. -/
theorem exec_toList_append {act' : Option Action} {rest : List Action} {τ τ' : System}
    (h : act' = none ∧ τ' = τ ∨ ∃ act, act' = some act ∧ τ.step act = some τ') :
    τ.exec (act'.toList ++ rest) = τ'.exec rest := by
  rcases h with ⟨rfl, rfl⟩ | ⟨act, rfl, hstep⟩
  · rfl
  · show τ.exec (act :: rest) = _
    rw [exec_cons, hstep]
    rfl

/-- The erased run goes as far as the whole run and ends in what is left of
its last state. -/
theorem exec_erase (Watched : Prop) {acts : List Action} (hnum : Numbered σ)
    (hwatched : Watched → k = "coordinator" ∧ Reserved σ ∧
      ∀ act ∈ acts, ElectsOnReserved σ act)
    (h : Shadows Watched k σ τ) (hexec : σ.exec acts = some σ') :
    ∃ τ', τ.exec (erase k σ acts) = some τ' ∧ Shadows Watched k σ' τ' := by
  induction acts generalizing σ τ with
  | nil =>
    cases hexec
    exact ⟨τ, rfl, h⟩
  | cons act rest ih =>
    rw [exec_cons] at hexec
    obtain ⟨σ1, hstep, hrest⟩ := Option.bind_eq_some_iff.mp hexec
    have hcases := step_cases hstep
    have hnum1 := numbered_step hnum hcases
    have hwatched1 : Watched → k = "coordinator" ∧ Reserved σ1 ∧
        ∀ act ∈ rest, ElectsOnReserved σ1 act := by
      intro hw
      obtain ⟨hk, hreserved, hacts⟩ := hwatched hw
      refine ⟨hk, reserved_step hreserved (hacts act List.mem_cons_self) hcases, ?_⟩
      exact fun act hact => hacts act (List.mem_cons_of_mem _ hact)
    have hshadows := shadows_step hnum
      (fun hw => ⟨(hwatched hw).1, (hwatched hw).2.1⟩) h hstep
    simp only [erase, hstep]
    rcases hshadows with ⟨hkept, hshadows⟩ | ⟨act', τ1, hkept, hstep', hshadows⟩
    · rw [exec_toList_append (Or.inl ⟨hkept, rfl⟩)]
      exact ih hnum1 hwatched1 hshadows hrest
    · rw [exec_toList_append (Or.inr ⟨act', hkept, hstep'⟩)]
      exact ih hnum1 hwatched1 hshadows hrest

/-- Keys do not interfere.  From any servers, a run without its invocations on
other keys is a run.  It ends with the same invocations on the key, so with
the same statuses, with the same answers in its history, and with servers that
agree on the key.  They also have the same coordinators when the key is the
reserved one, if elections are held on the reserved key only. -/
theorem keys_do_not_interfere (k : String) (servers : Addr → MultiPaxosServiceImpl)
    {acts : List Action} {σ : System} (h : exec { servers := servers } acts = some σ) :
    ∃ τ, exec { servers := servers } (erase k { servers := servers } acts) = some τ ∧
      Projects k σ τ ∧
      (k = "coordinator" → (∀ act ∈ acts, ElectsOnReserved { servers := servers } act) →
        (∀ addr key r, key ≠ "coordinator" →
          ((servers addr).kvDb.paxosLog key r).acceptedType ≠ .setCoordinator) →
        ∀ addr, CoordinatorsAlike (τ.servers addr) (σ.servers addr)) := by
  have hnum := numbered_start servers
  have hprojects : Projects k { servers := servers } { servers := servers } :=
    ⟨rfl, rfl, rfl, fun addr => .refl k (servers addr)⟩
  by_cases hw : k = "coordinator" ∧
      (∀ act ∈ acts, ElectsOnReserved { servers := servers } act) ∧
      ∀ addr key r, key ≠ "coordinator" →
        ((servers addr).kvDb.paxosLog key r).acceptedType ≠ .setCoordinator
  · obtain ⟨hk, hacts, hlogs⟩ := hw
    have hreserved : Reserved { servers := servers } :=
      ⟨hlogs, fun i inv hi => by simp at hi, fun entry hentry => by cases hentry⟩
    obtain ⟨τ, hτ, hshadows⟩ := exec_erase True hnum
      (fun _ => ⟨hk, hreserved, hacts⟩) ⟨hprojects, fun _ addr => rfl⟩ h
    exact ⟨τ, hτ, hshadows.projects, fun _ _ _ => hshadows.coordinators trivial⟩
  · obtain ⟨τ, hτ, hshadows⟩ := exec_erase False hnum (fun hw => hw.elim)
      ⟨hprojects, fun hw => hw.elim⟩ h
    exact ⟨τ, hτ, hshadows.projects, fun hk hacts hlogs => absurd ⟨hk, hacts, hlogs⟩ hw⟩

end Shadows

/-- Two replicas.  A `PutPair` on another key runs between the steps of one on
`k`, whose `Propose` to `b` arrives late. -/
def twoKeys : List Action :=
  [.start "a" (.put "m" "x"), .start "b" (.put "k" "y")] ++ Action.loop 0 2 ++
    Action.loop 1 2 ++ [.call 0 .delivered false] ++ Action.loop 1 2 ++
    [.call 0 .lost true, .call 1 .delivered false, .call 1 .replyLost false,
      .arrive 0 {} false, .advance 0, .advance 1]

set_option maxRecDepth 10000 in
/-- The invocation on `k` fails its consensus with and without the other. -/
theorem keys_do_not_interfere_twoKeys :
    ∃ σ τ, exec (fresh ["a", "b"]) twoKeys = some σ ∧
      exec (fresh ["a", "b"])
        ([.start "b" (.put "k" "y")] ++ Action.loop 0 2 ++ Action.loop 0 2 ++
          [.call 0 .delivered false, .call 0 .replyLost false, .arrive 0 {} false,
            .advance 0]) = some τ ∧
      Projects "k" σ τ := by
  have hrun : (exec (fresh ["a", "b"]) twoKeys).isSome = true := by decide +kernel
  have herase : erase "k" (fresh ["a", "b"]) twoKeys =
      [.start "b" (.put "k" "y")] ++ Action.loop 0 2 ++ Action.loop 0 2 ++
        [.call 0 .delivered false, .call 0 .replyLost false, .arrive 0 {} false,
          .advance 0] := by
    decide +kernel
  obtain ⟨σ, hσ⟩ := Option.isSome_iff_exists.mp hrun
  obtain ⟨τ, hτ, hprojects, _⟩ := keys_do_not_interfere "k" (fresh ["a", "b"]).servers hσ
  refine ⟨σ, τ, hσ, ?_, hprojects⟩
  rw [← herase]
  exact hτ

end System

end PaxosKVStore
