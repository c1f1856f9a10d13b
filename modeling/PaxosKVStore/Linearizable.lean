import PaxosKVStore.FixedCoordinator
import PaxosKVStore.Store

/-!
# One coordinator is linearizable

The setting is that of `FixedCoordinator`: one server `C` handles the client
requests, its calls to itself arrive, and no two updates of one key overlap.
Updates of different keys overlap, the other replicas may miss any call or
get it late, and a GET may come at any time, also while an update of its key
is running.

`Serving` is the system together with what its clients see.  An update is
called when its handler starts and returns with it; a GET is handled in one
step.  A client sees its own call earlier and the return later than that, so
its view is linearizable if this one is.

The point of an update that succeeds is the `Inform` of `C` to itself, and
that of one that fails is its return.
-/

namespace PaxosKVStore

open Linearizability

/-- An operation: the update of an invocation, or one that is called and
returns in one step after `events` events. -/
inductive OpId where
  | run (run : Nat)
  | once (events : Nat)
  deriving DecidableEq, Repr

structure Serving where
  system : System
  trace : List (HistoryEvent OpId ClientRequest Told) := []

namespace Serving

inductive Action where
  /-- A step of the servers. -/
  | paxos (act : PaxosKVStore.Action)
  /-- `C` handles a GET. -/
  | get (key : String) (context : ServerContext)
  deriving DecidableEq, Repr

/-- What the clients see of a step of the servers. -/
def seen (s : Serving) : PaxosKVStore.Action → List (HistoryEvent OpId ClientRequest Told)
  | .start _ request context =>
      match request.client with
      | none => []
      | some asked =>
          match request.refusal context with
          | some status =>
              [.ret (.once s.trace.length) { code := status.code },
                .call (.once s.trace.length) asked]
          | none => [.call (.run s.system.runs.length) asked]
  | .advance run =>
      match s.system.runs[run]?.bind Invocation.advance with
      | none => []
      | some inv =>
          match inv.phase, inv.request.client with
          | .returned status, some _ => [.ret (.run run) { code := status.code }]
          | _, _ => []
  | .call .. => []
  | .arrive .. => []

def step (C : Addr) (s : Serving) : Action → Option Serving
  | .paxos act =>
      (s.system.step act).map fun σ => { system := σ, trace := s.seen act ++ s.trace }
  | .get key context =>
      let (status, response) := (s.system.servers C).getValue context { key := key }
      some
        { s with
          trace :=
            .ret (.once s.trace.length) { code := status.code, value := response.value } ::
              .call (.once s.trace.length) (.get key) :: s.trace }

/-- The servers of which `C` lists itself, before the first request. -/
def serving (C : Addr) : ActionSystem Serving Action where
  isInitial s := (s.system.IsInitial ∧ System.ListsItself C s.system) ∧ s.trace = []
  step := step C

/-- The condition of `FixedCoordinator` on the steps of the servers. -/
def ServedBy (C : Addr) (s : Serving) : Action → Prop
  | .paxos act => System.ServedBy C s.system act
  | .get _ _ => True

instance (C : Addr) (s : Serving) (act : Action) : Decidable (s.ServedBy C act) :=
  match act with
  | .paxos act => inferInstanceAs (Decidable (System.ServedBy C s.system act))
  | .get _ _ => isTrue trivial

/-- The servers do not notice the trace. -/
theorem reachable_system {C : Addr} {s : Serving} (h : (serving C).Reachable (ServedBy C) s) :
    (paxos (System.ListsItself C)).Reachable (System.ServedBy C) s.system := by
  induction h with
  | start h0 => exact .start h0.1
  | @next s s' act _ hcond hstep ih =>
    cases act with
    | paxos act =>
      obtain ⟨σ, hσ, rfl⟩ := Option.map_eq_some_iff.mp hstep
      exact .next ih hcond hσ
    | get key context =>
      cases hstep
      exact ih

/-! ## Points and the state of the invocations -/

/-- How far an update of a client is, and what the trace and the points say. -/
structure RunTracked (C : Addr) (trace : List (HistoryEvent OpId ClientRequest Told))
    (entries : List (Entry OpId ClientRequest Told)) (i : Nat) (inv : Invocation)
    (asked : ClientRequest) : Prop where
  called : .call (.run i) asked ∈ trace
  pending : inv.Active → ∀ res, .ret (.run i) res ∉ trace
  done : inv.HasInformed C →
    { id := .run i, op := asked, res := { code := .ok } } ∈ entries
  undone : inv.Active → ¬ inv.HasInformed C → ∀ e ∈ entries, e.id ≠ .run i

structure Tracks (C : Addr) (s : Serving) (entries : List (Entry OpId ClientRequest Told))
    (map : AtomicMap) : Prop where
  points : Points store s.trace entries map
  entry : ∀ key, key ≠ "coordinator" → map key = (s.system.db C).getValue key
  run : ∀ (i : Nat) (inv : Invocation) (asked : ClientRequest), s.system.runs[i]? = some inv →
    inv.request.client = some asked → RunTracked C s.trace entries i inv asked
  known : ∀ i op, .call (.run i) op ∈ s.trace → i < s.system.runs.length
  past : ∀ n op, .call (.once n) op ∈ s.trace → n < s.trace.length

variable {C : Addr} {s : Serving} {entries : List (Entry OpId ClientRequest Told)}
  {map : AtomicMap} {trace : List (HistoryEvent OpId ClientRequest Told)} {i : Nat}
  {inv inv' : Invocation} {asked : ClientRequest}

/-- What happens to other operations does not matter. -/
theorem RunTracked.frame (h : RunTracked C trace entries i inv asked)
    (new : List (HistoryEvent OpId ClientRequest Told))
    (newEntries : List (Entry OpId ClientRequest Told)) (hnew : ∀ e ∈ new, e.id ≠ .run i)
    (hnewEntries : ∀ e ∈ newEntries, e.id ≠ .run i) :
    RunTracked C (new ++ trace) (newEntries ++ entries) i inv asked where
  called := List.mem_append_right _ h.called
  pending hactive res hmem := by
    rcases List.mem_append.mp hmem with hmem | hmem
    · exact hnew _ hmem rfl
    · exact h.pending hactive res hmem
  done hinformed := List.mem_append_right _ (h.done hinformed)
  undone hactive hnot e he := by
    rcases List.mem_append.mp he with he | he
    · exact hnewEntries e he
    · exact h.undone hactive hnot e he

/-- An invocation that is as far as before. -/
theorem RunTracked.congr (h : RunTracked C trace entries i inv asked)
    (hactive : inv'.Active → inv.Active)
    (hinformed : inv'.Active → (inv'.HasInformed C ↔ inv.HasInformed C)) :
    RunTracked C trace entries i inv' asked where
  called := h.called
  pending hactive' := h.pending (hactive hactive')
  done hinformed' := h.done ((hinformed hinformed'.active).mp hinformed')
  undone hactive' hnot := h.undone (hactive hactive') fun h => hnot ((hinformed hactive').mpr h)

/-- An operation that was not called has no return and no point. -/
theorem Tracks.fresh (h : Tracks C s entries map) {id : OpId}
    (hnew : ∀ op, .call id op ∉ s.trace) :
    (∀ res, .ret id res ∉ s.trace) ∧ ∀ e ∈ entries, e.id ≠ id := by
  constructor
  · intro res hres
    obtain ⟨op, hop⟩ := h.points.linearizes.called_of_ret hres
    exact hnew op hop
  · rintro e he rfl
    exact hnew e.op (h.points.linearizes.called e he)

/-- Another state of the servers in which nobody is further than before. -/
theorem Tracks.quiet (h : Tracks C s entries map) {σ : System}
    (hentry : ∀ key, key ≠ "coordinator" →
      (σ.db C).getValue key = (s.system.db C).getValue key)
    (hrun : ∀ (i : Nat) (inv : Invocation) (asked : ClientRequest), σ.runs[i]? = some inv →
      inv.request.client = some asked → RunTracked C s.trace entries i inv asked)
    (hlength : s.system.runs.length ≤ σ.runs.length) :
    Tracks C { s with system := σ } entries map where
  points := h.points
  entry key hkey := (h.entry key hkey).trans (hentry key hkey).symm
  run := hrun
  known i op hop := (h.known i op hop).trans_le hlength
  past := h.past

/-- An invocation has moved, but not past its point. -/
theorem Tracks.moved (h : Tracks C s entries map) {σ : System} {run : Nat} {inv₀ inv₁ : Invocation}
    (hentry : ∀ key, key ≠ "coordinator" →
      (σ.db C).getValue key = (s.system.db C).getValue key)
    (hrun : s.system.runs[run]? = some inv₀) (hruns : σ.runs = s.system.runs.set run inv₁)
    (hrequest : inv₁.request = inv₀.request) (hactive : inv₁.Active → inv₀.Active)
    (hinformed : ∀ asked, inv₀.request.client = some asked → inv₁.Active →
      (inv₁.HasInformed C ↔ inv₀.HasInformed C)) :
    Tracks C { s with system := σ } entries map := by
  refine h.quiet hentry ?_ (by rw [hruns, List.length_set])
  intro i inv asked hi hclient
  rw [hruns] at hi
  rcases System.getElem?_set_cases hrun hi with ⟨rfl, rfl⟩ | ⟨_, hi⟩
  · rw [hrequest] at hclient
    exact (h.run i inv₀ asked hrun hclient).congr hactive (hinformed asked hclient)
  · exact h.run i inv asked hi hclient

/-- An operation that is called and returns in one step, without effect. -/
theorem Tracks.once (h : Tracks C s entries map) {told : Told}
    (hallows : Store.Allows map asked told map) :
    ∃ entries', Tracks C
      { s with
        trace := .ret (.once s.trace.length) told :: .call (.once s.trace.length) asked ::
          s.trace } entries' map := by
  have hnew : ∀ op, .call (.once s.trace.length) op ∉ s.trace := fun op hop =>
    lt_irrefl _ (h.past _ op hop)
  obtain ⟨hpending, hnone⟩ := h.fresh hnew
  refine ⟨{ id := .once s.trace.length, op := asked, res := told } :: entries, ?_, h.entry, ?_,
    ?_, ?_⟩
  · refine .ret (.point (.call asked h.points hnew) List.mem_cons_self ?_ hnone hallows)
      List.mem_cons_self
    intro res hres
    rcases List.mem_cons.mp hres with heq | hres
    · cases heq
    · exact hpending res hres
  · intro i inv asked' hi hclient
    refine (h.run i inv asked' hi hclient).frame [_, _] [_] ?_ ?_
    · simp [HistoryEvent.id]
    · simp
  · intro i op hop
    simp only [List.mem_cons, reduceCtorEq, HistoryEvent.call.injEq, false_and, false_or] at hop
    exact h.known i op hop
  · intro n op hop
    simp only [List.mem_cons, reduceCtorEq, HistoryEvent.call.injEq, OpId.once.injEq,
      false_or] at hop
    rcases hop with ⟨rfl, _⟩ | hop
    · simp only [List.length_cons]
      omega
    · have := h.past n op hop
      simp only [List.length_cons]
      omega

/-- An update is called. -/
theorem Tracks.enter (h : Tracks C s entries map) {σ : System}
    (hentry : ∀ key, key ≠ "coordinator" →
      (σ.db C).getValue key = (s.system.db C).getValue key)
    (hruns : σ.runs = s.system.runs ++ [inv]) (hclient : inv.request.client = some asked)
    (hnot : ¬ inv.HasInformed C) :
    Tracks C { system := σ, trace := .call (.run s.system.runs.length) asked :: s.trace }
      entries map := by
  have hnew : ∀ op, .call (.run s.system.runs.length) op ∉ s.trace := fun op hop =>
    lt_irrefl _ (h.known _ op hop)
  obtain ⟨hpending, hnone⟩ := h.fresh hnew
  refine ⟨.call asked h.points hnew, fun key hkey =>
    (h.entry key hkey).trans (hentry key hkey).symm, ?_, ?_, ?_⟩
  · intro i inv' asked' hi hclient'
    rw [hruns] at hi
    rcases System.getElem?_snoc_cases hi with ⟨rfl, rfl⟩ | hi
    · rw [hclient] at hclient'
      cases hclient'
      refine ⟨List.mem_cons_self, fun _ res hres => ?_, fun hinformed => absurd hinformed hnot,
        fun _ _ => hnone⟩
      rcases List.mem_cons.mp hres with heq | hres
      · cases heq
      · exact hpending res hres
    · have hlt := (List.getElem?_eq_some_iff.mp hi).1
      refine (h.run i inv' asked' hi hclient').frame [_] [] ?_ ?_
      · simpa [HistoryEvent.id] using hlt.ne'
      · simp
  · intro i op hop
    rw [hruns, List.length_append]
    rcases List.mem_cons.mp hop with heq | hop
    · cases heq
      exact Nat.lt_succ_self _
    · exact (h.known i op hop).trans (Nat.lt_succ_self _)
  · intro n op hop
    rcases List.mem_cons.mp hop with heq | hop
    · cases heq
    · exact (h.past n op hop).trans (Nat.lt_succ_self _)

section OwnPoint

variable {σ : System} {run : Nat} {inv₀ inv₁ : Invocation}

/-- The `Inform` that reaches `C` is the point of a running update. -/
theorem Tracks.informed (h : Tracks C s entries map)
    (hrun : s.system.runs[run]? = some inv₀) (hruns : σ.runs = s.system.runs.set run inv₁)
    (hclient : inv₀.request.client = some asked) (hkey : asked.key ≠ "coordinator")
    (hrequest : inv₁.request = inv₀.request) (hactive : inv₀.Active)
    (hnot : ¬ inv₀.HasInformed C) (hinformed : inv₁.HasInformed C)
    (hentry : ∀ key, key ≠ "coordinator" →
      (σ.db C).getValue key = map.apply inv₀.request key) :
    ∃ entries', Tracks C { s with system := σ } entries' (map.apply inv₀.request) := by
  obtain ⟨hcalled, hpending, _, hundone⟩ := h.run run inv₀ asked hrun hclient
  refine ⟨{ id := .run run, op := asked, res := { code := .ok } } :: entries, ?_,
    fun key hkey => (hentry key hkey).symm, ?_, ?_, h.past⟩
  · refine .point h.points hcalled (hpending hactive) (hundone hactive hnot) ?_
    exact .done (Request.update_of_client hclient) hkey
  · intro i inv asked' hi hclient'
    rw [hruns] at hi
    rcases System.getElem?_set_cases hrun hi with ⟨rfl, rfl⟩ | ⟨hne, hi⟩
    · rw [hrequest, hclient] at hclient'
      cases hclient'
      exact ⟨hcalled, fun _ => hpending hactive, fun _ => List.mem_cons_self,
        fun _ hnot' => absurd hinformed hnot'⟩
    · refine (h.run i inv asked' hi hclient').frame [] [_] ?_ ?_
      · simp
      · simpa using fun heq => hne heq.symm
  · intro i op hop
    rw [hruns, List.length_set]
    exact h.known i op hop

/-- An update returns with its result, at its point or after it. -/
theorem Tracks.returned (h : Tracks C s entries map)
    (hentry : ∀ key, key ≠ "coordinator" →
      (σ.db C).getValue key = (s.system.db C).getValue key)
    (hrun : s.system.runs[run]? = some inv₀) (hruns : σ.runs = s.system.runs.set run inv₁)
    (hclient : inv₀.request.client = some asked) (hrequest : inv₁.request = inv₀.request)
    (hactive : inv₀.Active) (hnot : ¬ inv₁.Active) {code : StatusCode}
    (hcode : (code = .ok ∧ inv₀.HasInformed C) ∨ (code = .aborted ∧ ¬ inv₀.HasInformed C)) :
    ∃ entries', Tracks C
      { system := σ, trace := .ret (.run run) { code := code } :: s.trace } entries' map := by
  obtain ⟨hcalled, hpending, hdone, hundone⟩ := h.run run inv₀ asked hrun hclient
  obtain ⟨new, hnew, hpoints, hmem⟩ :
      ∃ new : List (Entry OpId ClientRequest Told), (∀ e ∈ new, e.id = .run run) ∧
        Points store s.trace (new ++ entries) map ∧
        { id := .run run, op := asked, res := { code := code } } ∈ new ++ entries := by
    rcases hcode with ⟨rfl, hinformed⟩ | ⟨rfl, hinformed⟩
    · exact ⟨[], by simp, h.points, hdone hinformed⟩
    · refine ⟨[{ id := .run run, op := asked, res := { code := .aborted } }], by simp, ?_,
        List.mem_cons_self⟩
      exact .point h.points hcalled (hpending hactive) (hundone hactive hinformed)
        (.failed asked (by decide) (by decide))
  refine ⟨new ++ entries, .ret hpoints hmem, fun key hkey =>
    (h.entry key hkey).trans (hentry key hkey).symm, ?_, ?_, ?_⟩
  · intro i inv asked' hi hclient'
    rw [hruns] at hi
    rcases System.getElem?_set_cases hrun hi with ⟨rfl, rfl⟩ | ⟨hne, hi⟩
    · rw [hrequest, hclient] at hclient'
      cases hclient'
      exact ⟨List.mem_cons_of_mem _ hcalled, fun hactive' => absurd hactive' hnot,
        fun hinformed => absurd hinformed.active hnot, fun hactive' => absurd hactive' hnot⟩
    · have hne' : OpId.run run ≠ .run i := by simpa using fun heq => hne heq.symm
      refine (h.run i inv asked' hi hclient').frame [_] _ ?_ ?_
      · simpa [HistoryEvent.id] using hne'
      · exact fun e he => hnew e he ▸ hne'
  · intro i op hop
    rcases List.mem_cons.mp hop with heq | hop
    · cases heq
    · rw [hruns, List.length_set]
      exact h.known i op hop
  · intro n op hop
    rcases List.mem_cons.mp hop with heq | hop
    · cases heq
    · exact (h.past n op hop).trans (Nat.lt_succ_self _)

end OwnPoint

/-! ## The entries of the coordinator -/

section Values

variable {σ σ' : System} {act : PaxosKVStore.Action} {key : String}

/-- Only the `Inform` of `C` to itself changes an entry of `C`. -/
theorem getValue_step (h : (paxos (System.ListsItself C)).Reachable (System.ServedBy C) σ)
    (hstep : System.StepCases σ act σ') (hkey : key ≠ "coordinator")
    (hinform : ∀ run fate randomFail, act = .call run fate randomFail →
      ∀ inv, σ.runs[run]? = some inv → inv.key = key →
        ∀ todo, inv.phase ≠ .inform (C :: todo)) :
    (σ'.db C).getValue key = (σ.db C).getValue key := by
  have hprov := System.provenance_of_reachable h
  have helections := System.electionsReserved_of_reachable
    (fun _ _ (hcond : System.ServedBy C _ _) => hcond.electsOnReserved) h
  have hother : ∀ {run : Nat} {inv : Invocation} {msg : Message} {reply : Reply}
      {s' : MultiPaxosServiceImpl}, σ.runs[run]? = some inv → inv.Sends msg →
      Handled (σ.servers C) s' msg reply → inv.key ≠ key →
      s'.kvDb.getValue key = (σ.db C).getValue key := by
    intro run inv msg reply s' hrun hsends hhandled hne
    have himage := System.image_of_other_key hprov helections hrun hsends hhandled hne
    rwa [MultiPaxosServiceImpl.image, if_neg hkey, MultiPaxosServiceImpl.image,
      if_neg hkey] at himage
  cases hstep with
  | refuse hrefusal => rfl
  | @enter server request context hrefusal =>
    show ((Function.update σ.servers server _ C).kvDb).getValue key = _
    by_cases hs : C = server
    · subst hs
      rw [Function.update_self]
      exact KeyValueDataBase.getValue_touchKey ..
    · rw [Function.update_of_ne hs]
      rfl
  | @call run inv receiver msg fate randomFail hrun hcall =>
    by_cases hreceiver : C = receiver
    · subst hreceiver
      by_cases hfate : fate = .delivered
      · subst hfate
        have hhandled := σ.call_handled run inv C msg randomFail
        by_cases hkey0 : inv.key = key
        · -- the other calls execute nothing
          have hnone : msg.executed (σ.answer C msg {} randomFail) = none := by
            cases hcall with
            | inform hphase => exact absurd hphase (hinform run _ _ rfl inv hrun hkey0 _)
            | _ => rfl
          have hvalue := hhandled.value key
          rw [hnone] at hvalue
          exact hvalue
        · exact hother hrun hcall.sends hhandled hkey0
      · rw [System.db, System.call_undelivered _ _ _ _ _ _ hfate, System.db]
    · rw [System.db, System.call_other _ _ _ _ _ hreceiver, System.db]
  | advance hrun hadvance =>
    rw [System.db, System.noteReturn_servers]
    rfl
  | @arrive index run receiver msg context randomFail hindex =>
    have hmem := List.mem_of_getElem? hindex
    obtain ⟨inv, hrun, hsends⟩ := hprov.sent run receiver msg (hprov.inFlight _ _ _ hmem)
    by_cases hreceiver : C = receiver
    · -- a late call to `C` is about an election
      subst hreceiver
      refine hother hrun hsends (σ.deliver_handled run C msg context randomFail) fun hkey0 => ?_
      exact (System.exclusive_of_servedBy h hkey).inFlight run C msg inv hmem hrun hkey0 rfl
    · exact congrArg (fun s => s.kvDb.getValue key)
        (σ.deliver_other run msg context randomFail hreceiver)

end Values

/-! ## The steps -/

theorem advance_of_step {σ σ' : System} {run : Nat} (h : σ.step (.advance run) = some σ') :
    ∃ inv inv', σ.runs[run]? = some inv ∧ inv.advance = some inv' ∧
      σ' = (σ.setRun run inv').noteReturn run inv' := by
  simp only [System.step] at h
  split at h
  · cases h
  · rename_i inv hrun
    split at h
    · cases h
    · rename_i inv' hadvance
      cases h
      exact ⟨inv, inv', hrun, hadvance, rfl⟩

/-- A refusal is neither of the answers that report an effect or an entry. -/
theorem code_of_refusal_ne {request : Request} {context : ServerContext} {status : Status}
    (h : request.refusal context = some status) :
    status.code ≠ .ok ∧ status.code ≠ .notFound := by
  obtain ⟨isCancelled⟩ := context
  cases isCancelled with
  | false => simp [code_of_refusal h]
  | true =>
    cases h
    exact ⟨by decide, by decide⟩

section Steps

variable {σ' : System}

/-- The invocations for clients are on keys of the clients. -/
theorem key_of_client {σ : System}
    (h : (paxos (System.ListsItself C)).Reachable (System.ServedBy C) σ)
    (hi : σ.runs[i]? = some inv) (hclient : inv.request.client = some asked) :
    inv.key ≠ "coordinator" := by
  intro hkey
  have htype := System.reservedForElections_of_reachable h i inv hi hkey
  cases hrequest : inv.request with
  | put key value =>
    rw [hrequest] at htype
    cases htype
  | delete key =>
    rw [hrequest] at htype
    cases htype
  | electCoordinator key coordinator =>
    rw [hrequest] at hclient
    cases hclient

/-- The other invocations are elections, on the reserved key. -/
theorem client_of_key {σ : System}
    (h : (paxos (System.ListsItself C)).Reachable (System.ServedBy C) σ)
    (hi : σ.runs[i]? = some inv) (hkey : inv.key ≠ "coordinator") :
    ∃ asked, inv.request.client = some asked := by
  have helections := System.electionsReserved_of_reachable
    (fun _ _ (hcond : System.ServedBy C _ _) => hcond.electsOnReserved) h i inv hi
  cases hrequest : inv.request with
  | put key value => exact ⟨_, rfl⟩
  | delete key => exact ⟨_, rfl⟩
  | electCoordinator key coordinator =>
    rw [hrequest] at helections
    exact absurd (helections rfl) hkey

/-- A request is refused, or its handler enters `RunPaxos`. -/
theorem tracks_start (h : Tracks C s entries map)
    (hsystem : (paxos (System.ListsItself C)).Reachable (System.ServedBy C) s.system)
    {server : Addr} {request : Request} {context : ServerContext}
    (hstep : System.StepCases s.system (.start server request context) σ') :
    ∃ entries' map', Tracks C
      { system := σ', trace := s.seen (.start server request context) ++ s.trace }
      entries' map' := by
  have hentry : ∀ key, key ≠ "coordinator" →
      (σ'.db C).getValue key = (s.system.db C).getValue key := fun key hkey =>
    getValue_step hsystem hstep hkey fun run fate randomFail hact => by cases hact
  cases hstep with
  | @refuse _ _ _ status hrefusal =>
    have hquiet := h.quiet (σ := { s.system with
      history := .refused server request status :: s.system.history }) hentry h.run le_rfl
    cases hclient : request.client with
    | none =>
      refine ⟨entries, map, ?_⟩
      simpa only [seen, hclient, List.nil_append] using hquiet
    | some asked =>
      obtain ⟨hok, hfound⟩ := code_of_refusal_ne hrefusal
      obtain ⟨entries', htracks⟩ := hquiet.once (.failed asked hok hfound)
      refine ⟨entries', map, ?_⟩
      simpa only [seen, hclient, hrefusal, List.cons_append, List.nil_append] using htracks
  | enter hrefusal =>
    set inv := Invocation.enter server (s.system.servers server) request with hinv
    cases hclient : request.client with
    | none =>
      refine ⟨entries, map, ?_⟩
      simp only [seen, hclient, List.nil_append]
      refine h.quiet hentry ?_ (by simp)
      intro i inv' asked' hi hclient'
      rcases System.getElem?_snoc_cases hi with ⟨_, rfl⟩ | hi
      · exact absurd (hclient.symm.trans hclient') (by simp)
      · exact h.run i inv' asked' hi hclient'
    | some asked =>
      refine ⟨entries, map, ?_⟩
      simp only [seen, hclient, hrefusal, List.cons_append, List.nil_append]
      exact h.enter hentry rfl hclient fun hinformed => hinformed

/-- A call moves its invocation on, and is the point if it informs `C`. -/
theorem tracks_call (h : Tracks C s entries map)
    (hsystem : (paxos (System.ListsItself C)).Reachable (System.ServedBy C) s.system)
    {run : Nat} {fate : Fate} {randomFail : Bool}
    (hnext : (paxos (System.ListsItself C)).Reachable (System.ServedBy C) σ')
    (hstep : System.StepCases s.system (.call run fate randomFail) σ') :
    ∃ entries' map', Tracks C { s with system := σ' } entries' map' := by
  have hvalue := fun key => @getValue_step C s.system σ' _ key hsystem hstep
  cases hstep with
  | @call _ inv receiver msg _ _ hrun hcall =>
    have hruns := s.system.call_runs run inv receiver msg randomFail fate
    set answer := s.system.callAnswer receiver msg randomFail fate with hanswer
    have hev := s.system.call_evolves hcall randomFail fate
    have hphase : (inv.receive receiver answer).phase = inv.phase.tail := rfl
    have hactive : (inv.receive receiver answer).Active → inv.Active := fun _ => hcall.active
    by_cases hpoint : ∃ asked todo, inv.request.client = some asked ∧
        inv.phase = .inform (C :: todo)
    · obtain ⟨asked, todo, hclient, hinform⟩ := hpoint
      have hkey := key_of_client hsystem hrun hclient
      have hprov := System.provenance_of_reachable hsystem
      have hinformed : (inv.receive receiver answer).HasInformed C := by
        rw [Invocation.HasInformed, hphase, hinform]
        exact System.notMem_tail_of_inform hprov hrun hinform
      have hnot : ¬ inv.HasInformed C := by
        simp [Invocation.HasInformed, hinform]
      have hfollows : System.FollowsAt inv.key C
          (s.system.call run inv receiver msg fate randomFail) :=
        System.followsAt_of_reachable (A := (· = C))
          (fun _ _ hreach (hc : System.ServedBy C _ _) =>
            hc.respects (System.runsAt_of_reachable hreach) hkey)
          (fun _ _ hc => hc.electsOnReserved) hnext rfl
      have himage := hfollows.ahead run (inv.receive receiver answer)
        (by rw [hruns]; exact System.getElem?_set_self' hrun) hev.key hinformed
      rw [MultiPaxosServiceImpl.image, if_neg hkey, hev.request] at himage
      obtain ⟨entries', htracks⟩ := h.informed hrun hruns hclient
        (Request.key_of_client hclient ▸ hkey) hev.request hcall.active hnot hinformed
        fun key hclientKey => by
          by_cases heq : inv.key = key
          · subst heq
            exact himage.trans (AtomicMap.apply_self map inv.request).symm
          · rw [AtomicMap.apply_of_ne map heq, h.entry key hclientKey]
            refine hvalue key hclientKey fun run' fate' randomFail' hact inv' hrun' hkey' _ => ?_
            cases hact
            rw [hrun] at hrun'
            cases hrun'
            exact absurd hkey' heq
      exact ⟨entries', _, htracks⟩
    · refine ⟨entries, map, h.moved ?_ hrun hruns hev.request hactive ?_⟩
      · intro key hkey
        refine hvalue key hkey fun run' fate' randomFail' hact inv' hrun' hkey' todo hinform => ?_
        cases hact
        rw [hrun] at hrun'
        cases hrun'
        obtain ⟨asked, hclient⟩ := client_of_key hsystem hrun (hkey' ▸ hkey)
        exact hpoint ⟨asked, todo, hclient, hinform⟩
      · intro asked hclient _
        rw [Invocation.HasInformed, Invocation.HasInformed, hphase]
        cases hcall with
        | @inform todo hinform =>
          have hne : C ≠ receiver := by
            rintro rfl
            exact hpoint ⟨asked, todo, hclient, hinform⟩
          simp [hinform, Phase.tail, hne]
        | _ => simp [*, Phase.tail]

/-- An invocation goes on, and returns to its client if it is at its end. -/
theorem tracks_advance (h : Tracks C s entries map)
    (hsystem : (paxos (System.ListsItself C)).Reachable (System.ServedBy C) s.system) {run : Nat}
    (hstep : s.system.step (.advance run) = some σ') :
    ∃ entries' map', Tracks C { system := σ', trace := s.seen (.advance run) ++ s.trace }
      entries' map' := by
  have hentry : ∀ key, key ≠ "coordinator" →
      (σ'.db C).getValue key = (s.system.db C).getValue key := fun key hkey =>
    getValue_step hsystem (System.step_cases hstep) hkey fun run fate randomFail hact => by
      cases hact
  obtain ⟨inv, inv', hrun, hadvance, rfl⟩ := advance_of_step hstep
  have hruns : ((s.system.setRun run inv').noteReturn run inv').runs =
      s.system.runs.set run inv' := System.noteReturn_runs ..
  have hseen : s.seen (.advance run) =
      match inv'.phase, inv'.request.client with
      | .returned status, some _ => [.ret (.run run) { code := status.code }]
      | _, _ => [] := by
    simp only [seen, hrun, Option.bind_some, hadvance]
  have hadvances := Invocation.advances_of_advance hadvance
  have hrequest : inv'.request = inv.request := by cases hadvances <;> rfl
  rw [hseen]
  cases hclient : inv.request.client with
  | none =>
    refine ⟨entries, map, ?_⟩
    have hquiet := h.moved hentry hrun hruns hrequest (fun _ => hadvances.active)
      (by simp [hclient])
    rw [hrequest, hclient]
    cases hphase : inv'.phase <;> exact hquiet
  | some asked =>
    have hreturned : ∀ {code : StatusCode}, ¬ inv'.Active →
        (code = .ok ∧ inv.HasInformed C ∨ code = .aborted ∧ ¬ inv.HasInformed C) →
        ∃ entries' map', Tracks C
          { system := (s.system.setRun run inv').noteReturn run inv'
            trace := .ret (.run run) { code := code } :: s.trace } entries' map' :=
      fun hnot hcode => by
        obtain ⟨entries', htracks⟩ := h.returned hentry hrun hruns hclient hrequest
          hadvances.active hnot hcode
        exact ⟨entries', map, htracks⟩
    have hmoved : (inv'.HasInformed C ↔ inv.HasInformed C) → ∃ entries' map', Tracks C
        { system := (s.system.setRun run inv').noteReturn run inv', trace := s.trace }
        entries' map' := fun hiff =>
      ⟨entries, map, h.moved hentry hrun hruns hrequest (fun _ => hadvances.active)
        fun _ _ _ => hiff⟩
    rw [hrequest, hclient]
    have hkey := key_of_client hsystem hrun hclient
    cases hadvances with
    | startPrepare hphase hlive => exact hmoved (by simp [Invocation.HasInformed, hphase])
    | startPropose hphase hcount => exact hmoved (by simp [Invocation.HasInformed, hphase])
    | startInform hphase hcount =>
      -- `C` is live, so it has still to be informed
      have hreaches := (System.exclusive_of_servedBy hsystem hkey).reaches run inv hrun rfl C rfl
      simp only [Invocation.Reaches, hphase] at hreaches
      exact hmoved (by simp [Invocation.HasInformed, hphase, hreaches])
    | noneLive message hphase hlive =>
      exact hreturned (by simp [Invocation.Active, Invocation.finish])
        (Or.inr ⟨rfl, by simp [Invocation.HasInformed, hphase]⟩)
    | failedQuorum message hphase hcount =>
      exact hreturned (by simp [Invocation.Active, Invocation.finish])
        (Or.inr ⟨rfl, by simp [Invocation.HasInformed, hphase]⟩)
    | failedConsensus message hphase hcount =>
      exact hreturned (by simp [Invocation.Active, Invocation.finish])
        (Or.inr ⟨rfl, by simp [Invocation.HasInformed, hphase]⟩)
    | done hphase =>
      exact hreturned (by simp [Invocation.Active, Invocation.finish])
        (Or.inl ⟨rfl, by simp [Invocation.HasInformed, hphase]⟩)

end Steps

/-! ## Whole runs -/

theorem tracks_initial (h : (serving C).isInitial s) : Tracks C s [] .initial where
  points := by
    rw [h.2]
    exact .nil
  entry key hkey := by
    rw [System.db, h.1.1.kvDb, KeyValueDataBase.getValue_empty]
    exact if_neg hkey
  run i inv asked hi := by simp [h.1.1.runs] at hi
  known i op hop := by simp [h.2] at hop
  past n op hop := by simp [h.2] at hop

theorem tracks_of_reachable (h : (serving C).Reachable (ServedBy C) s) :
    ∃ entries map, Tracks C s entries map := by
  refine h.invariant (I := fun s => ∃ entries map, Tracks C s entries map) ?_ ?_
  · exact fun s hinit => ⟨[], .initial, tracks_initial hinit⟩
  · rintro s act s' hreach hcond hstep ⟨entries, map, htracks⟩
    have hsystem := reachable_system hreach
    cases act with
    | get key context =>
      cases hstep
      obtain ⟨entries', htracks'⟩ := htracks.once
        (Store.allows_getValue (s := s.system.servers C) htracks.entry context key)
      exact ⟨entries', map, htracks'⟩
    | paxos act =>
      have hnext := reachable_system (.next hreach hcond hstep)
      obtain ⟨σ', hσ, rfl⟩ := Option.map_eq_some_iff.mp hstep
      have hcases := System.step_cases hσ
      cases act with
      | start server request context => exact tracks_start htracks hsystem hcases
      | call run fate randomFail => exact tracks_call htracks hsystem hnext hcases
      | advance run => exact tracks_advance htracks hsystem hσ
      | arrive index context randomFail =>
        refine ⟨entries, map, htracks.quiet ?_ ?_ ?_⟩
        · exact fun key hkey => getValue_step hsystem hcases hkey
            fun run fate randomFail hact => by cases hact
        · cases hcases
          exact htracks.run
        · cases hcases
          exact le_rfl

/-- With one coordinator, and updates of one key one after the other, what the
clients see is linearizable, whatever becomes of the calls to the other
replicas. -/
theorem linearizable_of_reachable (h : (serving C).Reachable (ServedBy C) s) :
    Linearizable store s.trace := by
  obtain ⟨entries, map, htracks⟩ := tracks_of_reachable h
  exact ⟨entries, htracks.points.linearizes⟩

/-- Steps of the servers alone. -/
def paxosSteps (acts : List PaxosKVStore.Action) : List Action := acts.map .paxos

/-- `a` puts `k` and `l` at once.  A GET of `k` comes between the `Inform` of
`a` to itself and those to the others, and the second PUT fails. -/
def overlappingPuts : List Action :=
  paxosSteps
      ([.start "a" (.put "k" "x"), .start "a" (.put "l" "y")] ++
        PaxosKVStore.Action.loop 0 3 ++ PaxosKVStore.Action.loop 1 3 ++
        PaxosKVStore.Action.loop 0 3 ++ PaxosKVStore.Action.loop 0 3 ++
        [.call 0 .delivered false]) ++
    [.get "k" {}, .get "l" {}] ++
    paxosSteps
      [.call 0 .lost false, .call 0 .replyLost false, .advance 0, .call 1 .delivered true,
        .call 1 .lost false, .call 1 .delivered false, .advance 1]

set_option maxRecDepth 10000 in
/-- The GET of `k` reports the value before the PUT returns. -/
theorem linearizable_overlappingPuts :
    ∃ s : Serving, s.trace =
        [.ret (.run 1) { code := .aborted }, .ret (.run 0) { code := .ok },
          .ret (.once 4) { code := .notFound }, .call (.once 4) (.get "l"),
          .ret (.once 2) { code := .ok, value := "x" }, .call (.once 2) (.get "k"),
          .call (.run 1) (.put "l" "y"), .call (.run 0) (.put "k" "x")] ∧
      Linearizable store s.trace := by
  have hrun : ∃ s ∈ (serving "a").execWhere (ServedBy "a")
      { system := System.fresh ["a", "b", "c"] } overlappingPuts, s.trace =
        [.ret (.run 1) { code := .aborted }, .ret (.run 0) { code := .ok },
          .ret (.once 4) { code := .notFound }, .call (.once 4) (.get "l"),
          .ret (.once 2) { code := .ok, value := "x" }, .call (.once 2) (.get "k"),
          .call (.run 1) (.put "l" "y"), .call (.run 0) (.put "k" "x")] := by
    decide +kernel
  have hlisted : "a" ∈ (PaxosStubs.ofReplicas ["a", "b", "c"]).addrs := by decide
  have hinit : (serving "a").isInitial { system := System.fresh ["a", "b", "c"] } :=
    ⟨⟨System.fresh_isInitial _, hlisted⟩, rfl⟩
  obtain ⟨s, hreach, htrace⟩ := ActionSystem.exists_reachable_of_execWhere hinit hrun
  exact ⟨s, htrace, linearizable_of_reachable hreach⟩

end Serving

end PaxosKVStore
