import PaxosKVStore.RequestFlow

/-!
# Servers that start, answer requests and crash

`Deployment` is the set of servers of one configuration, in which requests
are handled one at a time.  A server that starts runs `Initialize`, and stays
up if that returns OK.  A crash loses all that the server has in memory.

An action fixes which servers can be reached while it lasts.  The properties
of a run are about `starts` and `answers`, two history variables with the
newest entry first.
-/

namespace PaxosKVStore

namespace Deployment

/-- A server has started. -/
structure Started where
  server : Addr
  /-- The servers that were up at that time. -/
  running : List Addr
  before : Servers
  after : Servers

/-- A request was answered. -/
structure Answered where
  request : ClientRequest
  answer : Answer
  /-- The servers that could be reached. -/
  reached : List Addr
  /-- None of them had logged a round of the key above those that the server
  had which handled the request. -/
  upToDate : Bool

/-- A choice of the environment. -/
inductive Action where
  /-- `server` starts. -/
  | start (server : Addr) (reach : List Addr) (randomFail : Message → Addr → Bool)
  /-- A client sends `request` to `server`. -/
  | request (server : Addr) (request : ClientRequest) (reach : List Addr)
      (randomFail : Message → Addr → Bool)
  /-- `server` goes down. -/
  | crash (server : Addr)

end Deployment

structure Deployment where
  servers : Servers
  running : List Addr := []
  starts : List Deployment.Started := []
  answers : List Deployment.Answered := []

namespace Deployment

/-- Whether `server` has logged the highest round of `key` among `reached`. -/
def upToDate (servers : Servers) (key : String) (reached : List Addr) (server : Addr) : Bool :=
  decide (∀ a ∈ reached, ∀ r ∈ (servers a).kvDb.rounds key,
    r ≤ (servers server).kvDb.latestRound key)

/-- The running servers in `reach`. -/
def reached (d : Deployment) (reach : List Addr) : List Addr :=
  d.running.filter fun a => a ∈ reach

/-- Note an answer. -/
def answered (d : Deployment) (request : ClientRequest) (reached : List Addr) (answer : Answer) :
    Answered where
  request := request
  answer := answer
  reached := reached
  upToDate := answer.handledBy.any fun server =>
    upToDate d.servers request.key reached server

def step (stubs : PaxosStubs) (d : Deployment) : Action → Option Deployment
  | .start server reach randomFail =>
      -- Only a null stub would be one more way to have no step, see `step_isSome`.
      if server ∈ d.running ∨ server ∉ stubs.addrs then none
      else
        let reached := server :: d.reached reach
        match d.servers.initializeServer (.within (fun a => a ∈ reached) randomFail) server with
        | none => none
        | some (status, servers) =>
            if status.ok then
              some
                { d with
                  servers := servers
                  running := server :: d.running
                  starts := { server, running := d.running, before := d.servers,
                              after := servers } :: d.starts }
            else
              -- the assertion in `main` ends the process
              some { d with servers := Function.update servers server (freshServer stubs server) }
  | .request server request reach randomFail =>
      if server ∉ d.running then none
      else
        let reached := d.reached reach
        match d.servers.requestFlow (fun a => a ∈ reached) randomFail server request with
        | none => none
        | some (answer, servers) =>
            some
              { d with
                servers := servers
                answers := d.answered request reached answer :: d.answers }
  | .crash server =>
      if server ∉ d.running then none
      else
        some
          { d with
            servers := Function.update d.servers server (freshServer stubs server)
            running := d.running.filter fun a => a ≠ server }

/-- No server is up at the start. -/
def initial (stubs : PaxosStubs) : Deployment where
  servers := freshServer stubs

/-- The deployment of the servers in `stubs`. -/
def deployment (stubs : PaxosStubs) : ActionSystem Deployment Action where
  isInitial d := d = initial stubs
  step := step stubs

/-- The servers `a`, `b` and `c` start in turn. -/
def startServers : List Action :=
  ["a", "b", "c"].map fun server => .start server ["a", "b", "c"] fun _ _ => false

/-! ## The steps -/

variable {stubs : PaxosStubs}

/-- The steps with the states that they lead to. -/
inductive StepCases (stubs : PaxosStubs) (d : Deployment) : Action → Deployment → Prop where
  | started {server : Addr} {reach : List Addr} {randomFail : Message → Addr → Bool}
      {status : Status} {servers : Servers} (hdown : server ∉ d.running)
      (hlisted : server ∈ stubs.addrs)
      (hinit : d.servers.initializeServer
        (.within (fun a => a ∈ server :: d.reached reach) randomFail) server =
          some (status, servers))
      (hok : status.ok = true) :
      StepCases stubs d (.start server reach randomFail)
        { d with
          servers := servers
          running := server :: d.running
          starts := { server, running := d.running, before := d.servers, after := servers } ::
            d.starts }
  | ended {server : Addr} {reach : List Addr} {randomFail : Message → Addr → Bool}
      {status : Status} {servers : Servers} (hdown : server ∉ d.running)
      (hlisted : server ∈ stubs.addrs)
      (hinit : d.servers.initializeServer
        (.within (fun a => a ∈ server :: d.reached reach) randomFail) server =
          some (status, servers)) :
      StepCases stubs d (.start server reach randomFail)
        { d with servers := Function.update servers server (freshServer stubs server) }
  | answered {server : Addr} {request : ClientRequest} {reach : List Addr}
      {randomFail : Message → Addr → Bool} {answer : Answer} {servers : Servers}
      (hup : server ∈ d.running)
      (hflow : d.servers.requestFlow (fun a => a ∈ d.reached reach) randomFail server request =
        some (answer, servers)) :
      StepCases stubs d (.request server request reach randomFail)
        { d with
          servers := servers
          answers := d.answered request (d.reached reach) answer :: d.answers }
  | crashed {server : Addr} (hup : server ∈ d.running) :
      StepCases stubs d (.crash server)
        { d with
          servers := Function.update d.servers server (freshServer stubs server)
          running := d.running.filter fun a => a ≠ server }

theorem step_cases {d d' : Deployment} {act : Action} (h : step stubs d act = some d') :
    StepCases stubs d act d' := by
  cases act with
  | start server reach randomFail =>
    simp only [step] at h
    split at h
    · cases h
    · rename_i hnew
      rw [not_or, not_not] at hnew
      split at h
      · cases h
      · rename_i status servers hinit
        split at h <;> cases h
        · rename_i hok
          exact .started hnew.1 hnew.2 hinit hok
        · exact .ended hnew.1 hnew.2 hinit
  | request server request reach randomFail =>
    simp only [step] at h
    split at h
    · cases h
    · rename_i hup
      split at h
      · cases h
      · rename_i answer servers hflow
        cases h
        exact .answered (not_not.mp hup) hflow
  | crash server =>
    simp only [step] at h
    split at h
    · cases h
    · rename_i hup
      cases h
      exact .crashed (not_not.mp hup)

/-! ## What every run keeps -/

/-- The servers are sound, and one that is not up has nothing in memory. -/
structure Sound (stubs : PaxosStubs) (d : Deployment) : Prop where
  servers : ∀ a, SoundServer stubs a (d.servers a)
  listed : ∀ a ∈ d.running, a ∈ stubs.addrs
  fresh : ∀ a, a ∉ d.running → d.servers a = freshServer stubs a

theorem sound_initial (stubs : PaxosStubs) : Sound stubs (initial stubs) where
  servers := soundServer_fresh
  listed a ha := by cases ha
  fresh a _ := rfl

section Unreached

variable {servers servers' : Servers} {reach : Addr → Bool}
  {randomFail : Message → Addr → Bool} {server a : Addr}

/-- A run of Paxos leaves alone who cannot be reached. -/
theorem runPaxos_unreached (request : Request) (hne : a ≠ server) (ha : reach a = false) :
    (runPaxos (.within reach randomFail) servers server request).2 a = servers a := by
  refine Solo.runPaxos_of_notMem_live hne fun hlive => ?_
  rw [(Solo.mem_live_within.mp hlive).2] at ha
  cases ha

/-- So does the start of another server. -/
theorem initializeServer_unreached {status : Status}
    (hsound : ∀ a, SoundServer stubs a (servers a))
    (h : servers.initializeServer (.within reach randomFail) server = some (status, servers'))
    (hne : a ≠ server) (ha : reach a = false) : servers' a = servers a := by
  rcases initializeServer_others hsound h with hsame | helected
  · exact hsame a hne
  · exact (helected a hne).trans (runPaxos_unreached _ hne ha)

/-- So does a request to another server. -/
theorem requestFlow_unreached {request : ClientRequest} {answer : Answer}
    (hsound : ∀ a, SoundServer stubs a (servers a))
    (h : servers.requestFlow reach randomFail server request = some (answer, servers'))
    (hne : a ≠ server) (ha : reach a = false) : servers' a = servers a := by
  refine @requestFlow_keeps servers servers' reach randomFail server request answer stubs
    (fun chosen => chosen a = servers a) hsound ?_ ?_ h rfl
  · exact fun _ => runPaxos_unreached _ hne ha
  · intro chosen handler update hreach _ _ hchosen
    have hne' : a ≠ handler := by
      rintro rfl
      rw [hreach] at ha
      cases ha
    exact (runPaxos_unreached _ hne' ha).trans hchosen

theorem soundServer_requestFlow {request : ClientRequest} {answer : Answer}
    (hsound : ∀ a, SoundServer stubs a (servers a))
    (h : servers.requestFlow reach randomFail server request = some (answer, servers'))
    (a : Addr) : SoundServer stubs a (servers' a) := by
  refine @requestFlow_keeps servers servers' reach randomFail server request answer stubs
    (fun chosen => ∀ a, SoundServer stubs a (chosen a)) hsound ?_ ?_ h hsound a
  · exact fun hlisted => Solo.soundServer_runPaxos hsound fun _ => ⟨rfl, hlisted⟩
  · intro chosen handler update _ _ hkey hchosen
    exact Solo.soundServer_runPaxos hchosen fun heq => absurd heq hkey

end Unreached

theorem sound_step {d d' : Deployment} {act : Action} (h : Sound stubs d)
    (hstep : step stubs d act = some d') : Sound stubs d' := by
  have hfresh : ∀ server a, SoundServer stubs a
      (Function.update d.servers server (freshServer stubs server) a) := fun server =>
    soundServer_update h.servers (soundServer_fresh server)
  cases step_cases hstep with
  | @started server reach randomFail status servers hdown hlisted hinit hok =>
    refine ⟨soundServer_initializeServer h.servers hinit, ?_, ?_⟩
    · exact List.forall_mem_cons.mpr ⟨hlisted, h.listed⟩
    · intro a ha
      rw [List.mem_cons, not_or] at ha
      rw [← h.fresh a ha.2]
      refine initializeServer_unreached h.servers hinit ha.1 ?_
      simp [ha.1, ha.2, reached]
  | @ended server reach randomFail status servers hdown hlisted hinit =>
    refine ⟨soundServer_update (soundServer_initializeServer h.servers hinit)
      (soundServer_fresh server), h.listed, ?_⟩
    intro a ha
    by_cases hserver : a = server
    · subst hserver
      exact Function.update_self ..
    · rw [← h.fresh a ha]
      refine (Function.update_of_ne hserver ..).trans ?_
      refine initializeServer_unreached h.servers hinit hserver ?_
      simp [hserver, ha, reached]
  | @answered server request reach randomFail answer servers hup hflow =>
    refine ⟨soundServer_requestFlow h.servers hflow, h.listed, ?_⟩
    intro a ha
    rw [← h.fresh a ha]
    refine requestFlow_unreached h.servers hflow ?_ ?_
    · rintro rfl
      exact ha hup
    · simp [ha, reached]
  | @crashed server hup =>
    refine ⟨hfresh server, fun a ha => h.listed a (List.mem_filter.mp ha).1, ?_⟩
    intro a ha
    by_cases hserver : a = server
    · subst hserver
      exact Function.update_self ..
    · refine (Function.update_of_ne hserver ..).trans (h.fresh a fun hmem => ha ?_)
      exact List.mem_filter.mpr ⟨hmem, by simpa using hserver⟩

/-- The actions that a deployment can take: a null stub stops none of them. -/
theorem step_isSome {d : Deployment} (h : Sound stubs d) {server : Addr} (hne : server ≠ "")
    (reach : List Addr) (randomFail : Message → Addr → Bool) :
    (server ∈ stubs.addrs → server ∉ d.running →
      (step stubs d (.start server reach randomFail)).isSome = true) ∧
    (server ∈ d.running → ∀ request,
      (step stubs d (.request server request reach randomFail)).isSome = true) := by
  constructor
  · intro hlisted hdown
    obtain ⟨⟨status, servers⟩, hinit⟩ := Option.isSome_iff_exists.mp
      (@initializeServer_isSome stubs d.servers server h.servers hlisted hne
        (fun a => a ∈ server :: d.reached reach) (by simp) randomFail)
    have hnew : ¬ (server ∈ d.running ∨ server ∉ stubs.addrs) := by simp [hdown, hlisted]
    simp only [step, if_neg hnew, hinit]
    split <;> rfl
  · intro hup request
    obtain ⟨⟨answer, servers⟩, hflow⟩ := Option.isSome_iff_exists.mp
      (@requestFlow_isSome d.servers (fun a => a ∈ d.reached reach) randomFail server request
        stubs h.servers (h.listed server hup) hne)
    simp [step, hup, hflow]

/-- Every reachable deployment is sound. -/
theorem sound_of_reachable {C : Deployment → Action → Prop} {d : Deployment}
    (h : (deployment stubs).Reachable C d) : Sound stubs d := by
  refine h.invariant ?_ ?_
  · rintro d rfl
    exact sound_initial stubs
  · intro d act d' _ _ hstep hd
    exact sound_step hd hstep

end Deployment

end PaxosKVStore
