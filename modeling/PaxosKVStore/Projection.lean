import PaxosKVStore.Alike
import PaxosKVStore.Following
import PaxosKVStore.Lib.Kept

/-!
# The invocations on one key

A run of the system is looked at through one key: the invocations on other
keys are erased, with their calls, and the rest keeps its fates and random
failures.  `erase` is the run that is left.  The invocations and the calls in
flight are numbered by their places in the lists of the system, so an erased
run renumbers them, and `position` is the new number of an invocation.

`Projects` relates a state of the whole run to one of the erased run.  For
each kind of step there are two lemmas: one on the key is a step of the erased
run, and one on another key is none.
-/

namespace PaxosKVStore

/-! ## Erasing the other keys -/

/-- An invocation on the key. -/
def Invocation.kept (k : String) (inv : Invocation) : Option Invocation :=
  if inv.key = k then some inv else none

/-- The invocation that an event is about. -/
def Event.runOf : Event → Option Nat
  | .refused .. => none
  | .sent run _ _ => some run
  | .handled run _ _ _ _ => some run
  | .returned run _ _ => some run

namespace System

/-- The number of an invocation among those on the key. -/
def position (k : String) (runs : List Invocation) (run : Nat) : Option Nat :=
  (runs[run]?.bind (Invocation.kept k)).map fun _ => Kept.rank (Invocation.kept k) runs run

/-- A call in flight of an invocation on the key. -/
def keptCall (k : String) (runs : List Invocation) (entry : Nat × Addr × Message) :
    Option (Nat × Addr × Message) :=
  (position k runs entry.1).map fun run => (run, entry.2)

/-- An event of an invocation on the key. -/
def keptEvent (k : String) (runs : List Invocation) : Event → Option Event
  | .refused server request status =>
      if request.key = k then some (.refused server request status) else none
  | .sent run receiver msg => (position k runs run).map fun run => .sent run receiver msg
  | .handled run receiver msg reply changed =>
      (position k runs run).map fun run => .handled run receiver msg reply changed
  | .returned run request status =>
      (position k runs run).map fun run => .returned run request status

/-- A step of an invocation on the key. -/
def keptAction (k : String) (σ : System) : Action → Option Action
  | .start server request context =>
      if request.key = k then some (.start server request context) else none
  | .call run fate randomFail =>
      (position k σ.runs run).map fun run => .call run fate randomFail
  | .advance run => (position k σ.runs run).map fun run => .advance run
  | .arrive index context randomFail =>
      (σ.inFlight[index]?.bind (keptCall k σ.runs)).map fun _ =>
        .arrive (Kept.rank (keptCall k σ.runs) σ.inFlight index) context randomFail

/-- A run from `σ`, up to its end or to a step that is disabled. -/
def exec (σ : System) (acts : List Action) : Option System := acts.foldlM step σ

/-- The run without the invocations on other keys. -/
def erase (k : String) : System → List Action → List Action
  | _, [] => []
  | σ, act :: rest =>
      match σ.step act with
      | none => []
      | some σ' => (keptAction k σ act).toList ++ erase k σ' rest

/-- `τ` is what is left of `σ`. -/
structure Projects (k : String) (σ τ : System) : Prop where
  runs : τ.runs = σ.runs.filterMap (Invocation.kept k)
  inFlight : τ.inFlight = σ.inFlight.filterMap (keptCall k σ.runs)
  history : τ.history = σ.history.filterMap (keptEvent k σ.runs)
  servers : ∀ addr, AlikeAt k (τ.servers addr) (σ.servers addr)

/-! ## Positions -/

section Positions

variable {k : String} {runs : List Invocation} {run i : Nat} {inv inv' : Invocation}

theorem kept_of_eq (h : inv.key = k) : inv.kept k = some inv := if_pos h

theorem kept_of_ne (h : inv.key ≠ k) : inv.kept k = none := if_neg h

theorem position_of_eq (h : runs[run]? = some inv) (hkey : inv.key = k) :
    position k runs run = some (Kept.rank (Invocation.kept k) runs run) := by
  rw [position, h, Option.bind_some, kept_of_eq hkey]
  rfl

theorem position_of_ne (h : runs[run]? = some inv) (hkey : inv.key ≠ k) :
    position k runs run = none := by
  rw [position, h, Option.bind_some, kept_of_ne hkey]
  rfl

/-- An invocation that moves keeps every position. -/
theorem position_set (h : runs[run]? = some inv) (hkey : inv'.key = inv.key) (i : Nat) :
    position k (runs.set run inv') i = position k runs i := by
  have hsome : (inv.kept k).isSome = (inv'.kept k).isSome := by
    rw [Invocation.kept, Invocation.kept, hkey]
    split <;> rfl
  have hrank := Kept.rank_set h hsome i
  rw [position, position, hrank]
  by_cases hi : run = i
  · subst hi
    rw [getElem?_set_self' h, h, Option.bind_some, Option.bind_some]
    cases hold : inv.kept k <;> cases hnew : inv'.kept k <;> simp_all
  · rw [List.getElem?_set_ne hi]

/-- An invocation that enters keeps the positions of the others. -/
theorem position_snoc (h : run < runs.length) :
    position k (runs ++ [inv]) run = position k runs run := by
  rw [position, position, Kept.rank_append (Nat.le_of_lt h), List.getElem?_append_left h]

end Positions

/-! ## Numbers that mean something -/

/-- Every number in flight or in the history is one of an invocation, and a
call in flight is about the key of its invocation. -/
structure Numbered (σ : System) : Prop where
  inFlight : ∀ entry ∈ σ.inFlight, ∃ inv, σ.runs[entry.1]? = some inv ∧
    ∀ slot ∈ entry.2.2.slot, slot.1 = inv.key
  history : ∀ e ∈ σ.history, ∀ run ∈ e.runOf, run < σ.runs.length

/-- A call is about the key of its invocation. -/
theorem slot_of_calls {inv : Invocation} {addr : Addr} {msg : Message}
    (h : inv.Calls addr msg) : ∀ slot ∈ msg.slot, slot.1 = inv.key := by
  intro slot hslot
  cases h <;> cases hslot <;> rfl

/-- A loop body keeps the key. -/
theorem key_receive (σ : System) {inv : Invocation} {receiver : Addr} {msg : Message}
    (hcall : inv.Calls receiver msg) (randomFail : Bool) (fate : Fate) :
    (inv.receive receiver (σ.callAnswer receiver msg randomFail fate)).key = inv.key :=
  (σ.call_evolves hcall randomFail fate).key

/-- The code after a loop keeps the key. -/
theorem key_advance {inv inv' : Invocation} (h : inv.Advances inv') : inv'.key = inv.key := by
  cases h <;> rfl

theorem numbered_start (servers : Addr → MultiPaxosServiceImpl) :
    Numbered { servers := servers } where
  inFlight entry hmem := by cases hmem
  history e hmem := by cases hmem

theorem numbered_step {σ σ' : System} {act : Action} (h : Numbered σ)
    (hstep : StepCases σ act σ') : Numbered σ' := by
  -- where an invocation was there is one of the same key
  have hset : ∀ {run : Nat} {inv inv' : Invocation}, σ.runs[run]? = some inv →
      inv'.key = inv.key → ∀ (i : Nat) (old : Invocation), σ.runs[i]? = some old →
      ∃ new, (σ.runs.set run inv')[i]? = some new ∧ new.key = old.key := by
    intro run inv inv' hrun hkey i old hold
    by_cases hi : run = i
    · subst hi
      rw [hrun] at hold
      cases hold
      exact ⟨inv', getElem?_set_self' hrun, hkey⟩
    · exact ⟨old, by rw [List.getElem?_set_ne hi, hold], rfl⟩
  cases hstep with
  | refuse hrefusal =>
    refine ⟨h.inFlight, fun e he run hrun => ?_⟩
    rcases List.mem_cons.mp he with rfl | he
    · cases hrun
    · exact h.history e he run hrun
  | enter hrefusal =>
    refine ⟨fun entry hentry => ?_, fun e he run hrun => ?_⟩
    · obtain ⟨inv, hinv, hslot⟩ := h.inFlight entry hentry
      exact ⟨inv, getElem?_snoc_of_some hinv, hslot⟩
    · have hlt := h.history e he run hrun
      rw [List.length_append]
      omega
  | @call run inv receiver msg fate randomFail hrun hcall =>
    have hkey := σ.key_receive hcall randomFail fate
    have hlt := (List.getElem?_eq_some_iff.mp hrun).1
    refine ⟨fun entry hentry => ?_, fun e he j hj => ?_⟩
    · rw [call_runs]
      have hold : ∃ old, σ.runs[entry.1]? = some old ∧
          ∀ slot ∈ entry.2.2.slot, slot.1 = old.key := by
        rw [call_inFlight] at hentry
        split at hentry
        · rcases List.mem_append.mp hentry with hentry | hentry
          · exact h.inFlight entry hentry
          · rw [List.mem_singleton.mp hentry]
            exact ⟨inv, hrun, slot_of_calls hcall⟩
        · exact h.inFlight entry hentry
      obtain ⟨old, hget, hslot⟩ := hold
      obtain ⟨new, hnew, hsame⟩ := hset hrun hkey _ _ hget
      exact ⟨new, hnew, fun slot hmem => (hslot slot hmem).trans hsame.symm⟩
    · rw [call_runs, List.length_set]
      rcases (mem_call_history ..).mp he with ⟨_, rfl⟩ | rfl | he
      · cases hj
        exact hlt
      · cases hj
        exact hlt
      · exact h.history e he j hj
  | @advance run inv inv' hrun hadvance =>
    have hlt := (List.getElem?_eq_some_iff.mp hrun).1
    refine ⟨fun entry hentry => ?_, fun e he j hj => ?_⟩
    · rw [noteReturn_inFlight] at hentry
      rw [noteReturn_runs]
      obtain ⟨old, hget, hslot⟩ := h.inFlight entry hentry
      obtain ⟨new, hnew, hsame⟩ := hset hrun (key_advance hadvance) _ _ hget
      exact ⟨new, hnew, fun slot hmem => (hslot slot hmem).trans hsame.symm⟩
    · rw [noteReturn_runs, setRun, List.length_set]
      rcases (mem_noteReturn_history ..).mp he with ⟨status, _, rfl⟩ | he
      · cases hj
        exact hlt
      · exact h.history e he j hj
  | @arrive index run receiver msg context randomFail hindex =>
    refine ⟨fun entry hentry => h.inFlight entry (List.mem_of_mem_eraseIdx hentry),
      fun e he j hj => ?_⟩
    rcases List.mem_cons.mp he with rfl | he
    · cases hj
      obtain ⟨inv, hinv, _⟩ := h.inFlight _ (List.mem_of_getElem? hindex)
      exact (List.getElem?_eq_some_iff.mp hinv).1
    · exact h.history e he j hj

/-- Where the positions stay, the erased calls and events do. -/
theorem Numbered.filterMap_congr {σ : System} (h : Numbered σ) {k : String}
    {runs : List Invocation}
    (hsame : ∀ run < σ.runs.length, position k runs run = position k σ.runs run) :
    σ.inFlight.filterMap (keptCall k runs) = σ.inFlight.filterMap (keptCall k σ.runs) ∧
      σ.history.filterMap (keptEvent k runs) = σ.history.filterMap (keptEvent k σ.runs) := by
  constructor
  · refine List.filterMap_congr fun entry hentry => ?_
    obtain ⟨inv, hinv, _⟩ := h.inFlight entry hentry
    rw [keptCall, keptCall, hsame _ (List.getElem?_eq_some_iff.mp hinv).1]
  · refine List.filterMap_congr fun e he => ?_
    have hrun := h.history e he
    cases e with
    | refused server request status => rfl
    | sent run receiver msg => rw [keptEvent, keptEvent, hsame run (hrun run rfl)]
    | handled run receiver msg reply changed =>
      rw [keptEvent, keptEvent, hsame run (hrun run rfl)]
    | returned run request status => rw [keptEvent, keptEvent, hsame run (hrun run rfl)]

/-- A new invocation does not move the others. -/
theorem Numbered.filterMap_snoc {σ : System} (h : Numbered σ) (k : String) (inv : Invocation) :
    σ.inFlight.filterMap (keptCall k (σ.runs ++ [inv])) =
        σ.inFlight.filterMap (keptCall k σ.runs) ∧
      σ.history.filterMap (keptEvent k (σ.runs ++ [inv])) =
        σ.history.filterMap (keptEvent k σ.runs) :=
  h.filterMap_congr fun _ hrun => position_snoc hrun

/-! ## Calls on the key and calls on other keys -/

section Calls

variable {k : String} {σ τ : System} {receiver : Addr} {msg : Message}

/-- A call on the key gets the same answer, and changes the data map if and
only if it changes the erased one. -/
theorem Projects.answer (h : Projects k σ τ) (receiver : Addr)
    (hslot : ∀ slot ∈ msg.slot, slot.1 = k) (context : ServerContext) (randomFail : Bool) :
    τ.answer receiver msg context randomFail = σ.answer receiver msg context randomFail ∧
      τ.dataChanged receiver msg context randomFail =
        σ.dataChanged receiver msg context randomFail := by
  have hanswer := (h.servers receiver).answer hslot context randomFail
  refine ⟨hanswer, ?_⟩
  -- the entry of the key is all that the call can change
  have hentry : ∀ s : MultiPaxosServiceImpl,
      (s.handle context randomFail msg).2.kvDb.dataMap = s.kvDb.dataMap ↔
        (s.handle context randomFail msg).2.kvDb.getValue k = s.kvDb.getValue k := by
    intro s
    constructor
    · intro hmap
      rw [KeyValueDataBase.getValue, hmap, KeyValueDataBase.getValue]
    · intro hvalue
      refine KeyValueDataBase.dataMap_ext fun key => ?_
      by_cases hkey : key = k
      · rw [hkey, hvalue]
      · refine ((s.handle_handled randomFail context msg).frame fun slot hmem heq => ?_).2.2
        exact hkey (heq.symm.trans (hslot slot hmem))
  rw [dataChanged, dataChanged, decide_eq_decide, not_iff_not, hentry, hentry,
    ((h.servers receiver).handle hanswer).value, (h.servers receiver).value]

/-- The same call on the key at both. -/
theorem Projects.deliver_servers (h : Projects k σ τ) (hslot : ∀ slot ∈ msg.slot, slot.1 = k)
    (context : ServerContext) (randomFail : Bool) (addr : Addr) :
    AlikeAt k
      (Function.update τ.servers receiver
        ((τ.servers receiver).handle context randomFail msg).2 addr)
      (Function.update σ.servers receiver
        ((σ.servers receiver).handle context randomFail msg).2 addr) := by
  by_cases ha : addr = receiver
  · subst ha
    rw [Function.update_self, Function.update_self]
    exact (h.servers addr).handle ((h.servers addr).answer hslot context randomFail)
  · rw [Function.update_of_ne ha, Function.update_of_ne ha]
    exact h.servers addr

/-- A call on another key. -/
theorem Projects.deliver_other (h : Projects k σ τ) (hslot : ∀ slot ∈ msg.slot, slot.1 ≠ k)
    (context : ServerContext) (randomFail : Bool) (addr : Addr) :
    AlikeAt k (τ.servers addr)
      (Function.update σ.servers receiver
        ((σ.servers receiver).handle context randomFail msg).2 addr) := by
  by_cases ha : addr = receiver
  · subst ha
    rw [Function.update_self]
    exact (h.servers addr).trans
      (AlikeAt.handle_other (σ.servers addr) hslot context randomFail).symm
  · rw [Function.update_of_ne ha]
    exact h.servers addr

end Calls

/-! ## The steps -/

section Steps

variable {k : String} {σ τ : System}

theorem step_call {run : Nat} {inv : Invocation} {receiver : Addr} {msg : Message}
    (hrun : σ.runs[run]? = some inv) (hcall : inv.Calls receiver msg) (fate : Fate)
    (randomFail : Bool) :
    σ.step (.call run fate randomFail) = some (σ.call run inv receiver msg fate randomFail) := by
  simp only [step, hrun, Invocation.nextCall_of_calls hcall]

/-- A request on the key is refused by both, or enters with the same round. -/
theorem Projects.start_kept (hnum : Numbered σ) (h : Projects k σ τ) (server : Addr)
    {request : Request} (context : ServerContext) (hkey : request.key = k) :
    Projects k (σ.start server request context) (τ.start server request context) := by
  cases hrefusal : request.refusal context with
  | some status =>
    simp only [start, hrefusal]
    have hkept : keptEvent k σ.runs (.refused server request status) =
        some (.refused server request status) := if_pos hkey
    refine ⟨h.runs, h.inFlight, ?_, h.servers⟩
    show _ = (_ :: σ.history).filterMap (keptEvent k σ.runs)
    rw [List.filterMap_cons_some hkept, h.history]
  | none =>
    have henter : Invocation.enter server (τ.servers server) request =
        Invocation.enter server (σ.servers server) request := by
      have hround := (h.servers server).latestRound
      have hstubs := (h.servers server).stubs
      simp only [Invocation.enter, KeyValueDataBase.getLatestRound,
        PaxosStubsMap.getPaxosStubs, hkey, hround, hstubs]
    obtain ⟨hcalls, hevents⟩ := hnum.filterMap_snoc k
      (Invocation.enter server (σ.servers server) request)
    simp only [start, hrefusal]
    refine ⟨?_, ?_, ?_, fun addr => ?_⟩
    · have hkept : (Invocation.enter server (σ.servers server) request).kept k =
          some (Invocation.enter server (σ.servers server) request) := if_pos hkey
      show τ.runs ++ _ = (σ.runs ++ _).filterMap _
      rw [List.filterMap_append, List.filterMap_cons_some hkept, List.filterMap_nil, henter,
        h.runs]
    · exact h.inFlight.trans hcalls.symm
    · exact h.history.trans hevents.symm
    · by_cases ha : addr = server
      · subst ha
        simp only [Function.update_self]
        have hτ := AlikeAt.getLatestRound (τ.servers addr) k request.key
        have hσ := AlikeAt.getLatestRound (σ.servers addr) k request.key
        exact (hτ.trans (h.servers addr)).trans hσ.symm
      · simp only [Function.update_of_ne ha]
        exact h.servers addr

/-- A request on another key. -/
theorem Projects.start_erased (hnum : Numbered σ) (h : Projects k σ τ) (server : Addr)
    {request : Request} (context : ServerContext) (hkey : request.key ≠ k) :
    Projects k (σ.start server request context) τ := by
  cases hrefusal : request.refusal context with
  | some status =>
    simp only [start, hrefusal]
    have hkept : keptEvent k σ.runs (.refused server request status) = none := if_neg hkey
    refine ⟨h.runs, h.inFlight, ?_, h.servers⟩
    show _ = (_ :: σ.history).filterMap (keptEvent k σ.runs)
    rw [List.filterMap_cons_none hkept, h.history]
  | none =>
    obtain ⟨hcalls, hevents⟩ := hnum.filterMap_snoc k
      (Invocation.enter server (σ.servers server) request)
    simp only [start, hrefusal]
    refine ⟨?_, ?_, ?_, fun addr => ?_⟩
    · have hkept : (Invocation.enter server (σ.servers server) request).kept k = none :=
        if_neg hkey
      show τ.runs = (σ.runs ++ _).filterMap _
      rw [List.filterMap_append, List.filterMap_cons_none hkept, List.filterMap_nil,
        List.append_nil, h.runs]
    · exact h.inFlight.trans hcalls.symm
    · exact h.history.trans hevents.symm
    · by_cases ha : addr = server
      · subst ha
        simp only [Function.update_self]
        exact (h.servers addr).trans (AlikeAt.getLatestRound _ k request.key).symm
      · simp only [Function.update_of_ne ha]
        exact h.servers addr

theorem call_history (σ : System) (run : Nat) (inv : Invocation) (receiver : Addr)
    (msg : Message) (fate : Fate) (randomFail : Bool) :
    (σ.call run inv receiver msg fate randomFail).history =
      (if fate = .delivered then
        [.handled run receiver msg (σ.answer receiver msg {} randomFail)
          (σ.dataChanged receiver msg {} randomFail)]
      else []) ++ .sent run receiver msg :: σ.history := by
  cases fate <;> rfl

theorem call_servers (σ : System) (run : Nat) (inv : Invocation) (receiver : Addr)
    (msg : Message) (fate : Fate) (randomFail : Bool) :
    (σ.call run inv receiver msg fate randomFail).servers =
      if fate = .delivered then
        Function.update σ.servers receiver ((σ.servers receiver).handle {} randomFail msg).2
      else σ.servers := by
  cases fate <;> rfl

section Call

variable {run : Nat} {inv : Invocation} {receiver : Addr} {msg : Message}

/-- An invocation on the key has its place in the erased run. -/
theorem Projects.getElem? (h : Projects k σ τ) (hrun : σ.runs[run]? = some inv)
    (hkey : inv.key = k) :
    position k σ.runs run = some (Kept.rank (Invocation.kept k) σ.runs run) ∧
      τ.runs[Kept.rank (Invocation.kept k) σ.runs run]? = some inv := by
  refine ⟨position_of_eq hrun hkey, ?_⟩
  rw [h.runs]
  exact Kept.getElem?_filterMap hrun (kept_of_eq hkey)

/-- A call of an invocation on the key. -/
theorem Projects.call_kept (hnum : Numbered σ) (h : Projects k σ τ)
    (hrun : σ.runs[run]? = some inv) (hcall : inv.Calls receiver msg) (fate : Fate)
    (randomFail : Bool) (hkey : inv.key = k) :
    Projects k (σ.call run inv receiver msg fate randomFail)
      (τ.call (Kept.rank (Invocation.kept k) σ.runs run) inv receiver msg fate randomFail) := by
  have hslot : ∀ slot ∈ msg.slot, slot.1 = k := fun slot hmem =>
    (slot_of_calls hcall slot hmem).trans hkey
  obtain ⟨hanswer, hchanged⟩ := h.answer receiver hslot {} randomFail
  have hkey' := key_receive σ hcall randomFail fate
  have hposition := position_of_eq hrun hkey
  obtain ⟨hcalls, hevents⟩ := hnum.filterMap_congr (k := k)
    fun i _ => position_set hrun hkey' i
  have hsame : τ.callAnswer receiver msg randomFail fate =
      σ.callAnswer receiver msg randomFail fate := by
    cases fate with
    | delivered => exact congrArg some hanswer
    | lost => rfl
    | replyLost => rfl
  refine ⟨?_, ?_, ?_, fun addr => ?_⟩
  · rw [call_runs, call_runs, hsame, h.runs,
      Kept.filterMap_set hrun (kept_of_eq hkey) (kept_of_eq (hkey'.trans hkey))]
  · rw [call_inFlight, call_inFlight, call_runs]
    split
    · have hkept : keptCall k (σ.runs.set run (inv.receive receiver
          (σ.callAnswer receiver msg randomFail fate))) (run, receiver, msg) =
          some (Kept.rank (Invocation.kept k) σ.runs run, receiver, msg) := by
        rw [keptCall, position_set hrun hkey', hposition]
        rfl
      rw [List.filterMap_append, hcalls, List.filterMap_cons_some hkept, List.filterMap_nil,
        h.inFlight]
    · rw [hcalls, h.inFlight]
  · have hsent : keptEvent k (σ.runs.set run (inv.receive receiver
        (σ.callAnswer receiver msg randomFail fate))) (.sent run receiver msg) =
        some (.sent (Kept.rank (Invocation.kept k) σ.runs run) receiver msg) := by
      rw [keptEvent, position_set hrun hkey', hposition]
      rfl
    rw [call_history, call_history, call_runs, List.filterMap_append,
      List.filterMap_cons_some hsent, hevents, hanswer, hchanged, h.history]
    split
    · have hhandled : keptEvent k (σ.runs.set run (inv.receive receiver
          (σ.callAnswer receiver msg randomFail fate)))
          (.handled run receiver msg (σ.answer receiver msg {} randomFail)
            (σ.dataChanged receiver msg {} randomFail)) =
          some (.handled (Kept.rank (Invocation.kept k) σ.runs run) receiver msg
            (σ.answer receiver msg {} randomFail)
            (σ.dataChanged receiver msg {} randomFail)) := by
        rw [keptEvent, position_set hrun hkey', hposition]
        rfl
      rw [List.filterMap_cons_some hhandled, List.filterMap_nil]
    · rfl
  · rw [call_servers, call_servers]
    split
    · exact h.deliver_servers hslot {} randomFail addr
    · exact h.servers addr

/-- A call of an invocation on another key. -/
theorem Projects.call_erased (hnum : Numbered σ) (h : Projects k σ τ)
    (hrun : σ.runs[run]? = some inv) (hcall : inv.Calls receiver msg) (fate : Fate)
    (randomFail : Bool) (hkey : inv.key ≠ k) :
    Projects k (σ.call run inv receiver msg fate randomFail) τ := by
  have hslot : ∀ slot ∈ msg.slot, slot.1 ≠ k := fun slot hmem heq =>
    hkey ((slot_of_calls hcall slot hmem).symm.trans heq)
  have hkey' := key_receive σ hcall randomFail fate
  have hposition := position_of_ne hrun hkey
  obtain ⟨hcalls, hevents⟩ := hnum.filterMap_congr (k := k)
    fun i _ => position_set hrun hkey' i
  refine ⟨?_, ?_, ?_, fun addr => ?_⟩
  · rw [call_runs, h.runs, Kept.filterMap_set_of_none hrun (kept_of_ne hkey)
      (kept_of_ne (fun heq => hkey (hkey'.symm.trans heq)))]
  · rw [call_inFlight, call_runs]
    split
    · have hkept : keptCall k (σ.runs.set run (inv.receive receiver
          (σ.callAnswer receiver msg randomFail fate))) (run, receiver, msg) = none := by
        rw [keptCall, position_set hrun hkey', hposition]
        rfl
      rw [List.filterMap_append, hcalls, List.filterMap_cons_none hkept, List.filterMap_nil,
        List.append_nil, h.inFlight]
    · rw [hcalls, h.inFlight]
  · have hsent : keptEvent k (σ.runs.set run (inv.receive receiver
        (σ.callAnswer receiver msg randomFail fate))) (.sent run receiver msg) = none := by
      rw [keptEvent, position_set hrun hkey', hposition]
      rfl
    rw [call_history, call_runs, List.filterMap_append, List.filterMap_cons_none hsent,
      hevents, h.history]
    split
    · have hhandled : keptEvent k (σ.runs.set run (inv.receive receiver
          (σ.callAnswer receiver msg randomFail fate)))
          (.handled run receiver msg (σ.answer receiver msg {} randomFail)
            (σ.dataChanged receiver msg {} randomFail)) = none := by
        rw [keptEvent, position_set hrun hkey', hposition]
        rfl
      rw [List.filterMap_cons_none hhandled, List.filterMap_nil, List.nil_append]
    · rfl
  · rw [call_servers]
    split
    · exact h.deliver_other hslot {} randomFail addr
    · exact h.servers addr

end Call

section Advance

variable {run : Nat} {inv inv' : Invocation}

/-- The event of a return, if there is one. -/
theorem noteReturn_eq (σ : System) (run : Nat) (inv : Invocation) :
    (σ.noteReturn run inv).history =
      (match inv.phase with
        | .returned status => [.returned run inv.request status]
        | _ => []) ++ σ.history := by
  cases hphase : inv.phase <;> simp [noteReturn, hphase]

/-- An invocation on the key goes on. -/
theorem Projects.advance_kept (hnum : Numbered σ) (h : Projects k σ τ)
    (hrun : σ.runs[run]? = some inv) (hadvance : inv.Advances inv') (hkey : inv.key = k) :
    Projects k ((σ.setRun run inv').noteReturn run inv')
      ((τ.setRun (Kept.rank (Invocation.kept k) σ.runs run) inv').noteReturn
        (Kept.rank (Invocation.kept k) σ.runs run) inv') := by
  have hkey' := key_advance hadvance
  have hposition := position_of_eq hrun hkey
  obtain ⟨hcalls, hevents⟩ := hnum.filterMap_congr (k := k)
    fun i _ => position_set hrun hkey' i
  refine ⟨?_, ?_, ?_, fun addr => ?_⟩
  · rw [noteReturn_runs, noteReturn_runs, setRun, setRun, h.runs,
      Kept.filterMap_set hrun (kept_of_eq hkey) (kept_of_eq (hkey'.trans hkey))]
  · rw [noteReturn_inFlight, noteReturn_inFlight, noteReturn_runs]
    exact h.inFlight.trans hcalls.symm
  · rw [noteReturn_eq, noteReturn_eq, noteReturn_runs, List.filterMap_append]
    show _ ++ τ.history = _ ++ σ.history.filterMap (keptEvent k (σ.runs.set run inv'))
    rw [hevents, h.history]
    split
    · rename_i status hphase
      have hreturned : keptEvent k (σ.runs.set run inv') (.returned run inv'.request status) =
          some (.returned (Kept.rank (Invocation.kept k) σ.runs run) inv'.request status) := by
        rw [keptEvent, position_set hrun hkey', hposition]
        rfl
      show _ = List.filterMap (keptEvent k (σ.runs.set run inv')) [_] ++ _
      rw [List.filterMap_cons_some hreturned, List.filterMap_nil]
    · rfl
  · rw [noteReturn_servers, noteReturn_servers]
    exact h.servers addr

/-- An invocation on another key goes on. -/
theorem Projects.advance_erased (hnum : Numbered σ) (h : Projects k σ τ)
    (hrun : σ.runs[run]? = some inv) (hadvance : inv.Advances inv') (hkey : inv.key ≠ k) :
    Projects k ((σ.setRun run inv').noteReturn run inv') τ := by
  have hkey' := key_advance hadvance
  have hposition := position_of_ne hrun hkey
  obtain ⟨hcalls, hevents⟩ := hnum.filterMap_congr (k := k)
    fun i _ => position_set hrun hkey' i
  refine ⟨?_, ?_, ?_, fun addr => ?_⟩
  · rw [noteReturn_runs, setRun, h.runs, Kept.filterMap_set_of_none hrun (kept_of_ne hkey)
      (kept_of_ne (fun heq => hkey (hkey'.symm.trans heq)))]
  · rw [noteReturn_inFlight, noteReturn_runs]
    exact h.inFlight.trans hcalls.symm
  · rw [noteReturn_eq, noteReturn_runs, List.filterMap_append]
    show τ.history = _ ++ σ.history.filterMap (keptEvent k (σ.runs.set run inv'))
    rw [hevents, h.history]
    split
    · rename_i status hphase
      have hreturned : keptEvent k (σ.runs.set run inv') (.returned run inv'.request status) =
          none := by
        rw [keptEvent, position_set hrun hkey', hposition]
        rfl
      show _ = List.filterMap (keptEvent k (σ.runs.set run inv')) [_] ++ _
      rw [List.filterMap_cons_none hreturned, List.filterMap_nil, List.nil_append]
    · rfl
  · rw [noteReturn_servers]
    exact h.servers addr

end Advance

section Arrive

variable {index run : Nat} {receiver : Addr} {msg : Message}

/-- A late call of an invocation on the key. -/
theorem Projects.arrive_kept (h : Projects k σ τ) {inv : Invocation}
    (hindex : σ.inFlight[index]? = some (run, receiver, msg))
    (hrun : σ.runs[run]? = some inv) (hkey : inv.key = k)
    (hslot : ∀ slot ∈ msg.slot, slot.1 = k) (context : ServerContext) (randomFail : Bool) :
    Projects k
      { σ.deliver run receiver msg context randomFail with
        inFlight := σ.inFlight.eraseIdx index }
      { τ.deliver (Kept.rank (Invocation.kept k) σ.runs run) receiver msg context randomFail with
        inFlight := τ.inFlight.eraseIdx (Kept.rank (keptCall k σ.runs) σ.inFlight index) } := by
  have hposition := position_of_eq hrun hkey
  obtain ⟨hanswer, hchanged⟩ := h.answer receiver hslot context randomFail
  have hkept : keptCall k σ.runs (run, receiver, msg) =
      some (Kept.rank (Invocation.kept k) σ.runs run, receiver, msg) := by
    rw [keptCall, hposition]
    rfl
  have hhandled : keptEvent k σ.runs
      (.handled run receiver msg (σ.answer receiver msg context randomFail)
        (σ.dataChanged receiver msg context randomFail)) =
      some (.handled (Kept.rank (Invocation.kept k) σ.runs run) receiver msg
        (σ.answer receiver msg context randomFail)
        (σ.dataChanged receiver msg context randomFail)) := by
    rw [keptEvent, hposition]
    rfl
  refine ⟨h.runs, ?_, ?_, fun addr => h.deliver_servers hslot context randomFail addr⟩
  · show τ.inFlight.eraseIdx _ = (σ.inFlight.eraseIdx index).filterMap (keptCall k σ.runs)
    rw [h.inFlight, Kept.filterMap_eraseIdx hindex hkept]
  · show _ :: τ.history = (_ :: σ.history).filterMap (keptEvent k σ.runs)
    rw [List.filterMap_cons_some hhandled, hanswer, hchanged, h.history]

/-- A late call of an invocation on another key. -/
theorem Projects.arrive_erased (h : Projects k σ τ) {inv : Invocation}
    (hindex : σ.inFlight[index]? = some (run, receiver, msg))
    (hrun : σ.runs[run]? = some inv) (hkey : inv.key ≠ k)
    (hslot : ∀ slot ∈ msg.slot, slot.1 ≠ k) (context : ServerContext) (randomFail : Bool) :
    Projects k
      { σ.deliver run receiver msg context randomFail with
        inFlight := σ.inFlight.eraseIdx index } τ := by
  have hposition := position_of_ne hrun hkey
  have hkept : keptCall k σ.runs (run, receiver, msg) = none := by
    rw [keptCall, hposition]
    rfl
  have hhandled : keptEvent k σ.runs
      (.handled run receiver msg (σ.answer receiver msg context randomFail)
        (σ.dataChanged receiver msg context randomFail)) = none := by
    rw [keptEvent, hposition]
    rfl
  refine ⟨h.runs, ?_, ?_, fun addr => h.deliver_other hslot context randomFail addr⟩
  · show τ.inFlight = (σ.inFlight.eraseIdx index).filterMap (keptCall k σ.runs)
    rw [h.inFlight, Kept.filterMap_eraseIdx_of_none hindex hkept]
  · show τ.history = (_ :: σ.history).filterMap (keptEvent k σ.runs)
    rw [List.filterMap_cons_none hhandled, h.history]

end Arrive

end Steps

end System

end PaxosKVStore
