import PaxosKVStore.StaleReads

/-!
# Coordinators that hand over

`CaughtUp` asks what a coordinator has logged when it handles a PUT.  This
follows from who could be reached: if each PUT and DELETE on a key is handled
by a server that could be reached during the one before it, then the rounds of
the key are numbered through, and every coordinator has the highest one.
`freshReads_of_handsOver` is the rule for the reads of such a run.
-/

namespace PaxosKVStore

namespace Deployment

/-- A PUT or DELETE on `key` that some server has handled. -/
def Answered.IsHandledWrite (key : String) (x : Answered) : Prop :=
  x.IsWrite key ∧ x.answer.handledBy.isSome = true

instance (key : String) (x : Answered) : Decidable (x.IsHandledWrite key) :=
  inferInstanceAs (Decidable (_ ∧ _))

def lastHandledWrite (key : String) (answers : List Answered) : Option Answered :=
  answers.find? fun x => x.IsHandledWrite key

/-- Each PUT and DELETE on `key` is handled by a server that could be reached
during the one before it. -/
def HandsOver (key : String) : List Answered → Prop
  | [] => True
  | x :: answers =>
      (x.IsHandledWrite key → ∀ write ∈ lastHandledWrite key answers, x.HandledAmong write) ∧
      HandsOver key answers

/-- All rounds of the key are up to one that the servers of the last write
have logged. -/
def Numbered (key : String) (d : Deployment) : Prop :=
  match lastHandledWrite key d.answers with
  | none => ∀ a r, r ∉ (d.servers a).kvDb.rounds key
  | some write => ∃ round, (∀ a, ∀ r ∈ (d.servers a).kvDb.rounds key, r ≤ round) ∧
      ∀ a ∈ write.reached, a ∈ d.running ∧ round ∈ (d.servers a).kvDb.rounds key

section

variable {stubs : PaxosStubs} {key : String}

/-- A server that starts has logged no round that nobody had logged before. -/
theorem rounds_initializeServer {servers servers' : Servers} {server : Addr} {e : StartUp}
    {status : Status} (hsound : ∀ a, SoundServer stubs a (servers a))
    (h : servers.initializeServer e server = some (status, servers'))
    (hkey : key ≠ "coordinator") {a : Addr} {r : Int}
    (hr : r ∈ (servers' a).kvDb.rounds key) : ∃ b, r ∈ (servers b).kvDb.rounds key := by
  obtain ⟨elected, chosen, hchosen, hend⟩ := initializeServer_cases h
  have hrounds : ∀ b, r ∈ (chosen b).kvDb.rounds key → r ∈ (servers b).kvDb.rounds key := by
    intro b hb
    rcases hchosen with ⟨c, _, rfl⟩ | ⟨_, helection⟩
    · rwa [kvDb_follow] at hb
    · exact ((electNewCoordinator_sameAt hsound helection hkey b).rounds r).mp hb
  rcases hend with ⟨_, _, rfl⟩ | ⟨_, recovered, hrecovery, _⟩
  · exact ⟨a, hrounds a hr⟩
  · obtain ⟨c, _, _, ⟨_, rfl⟩ | ⟨_, rfl⟩⟩ := getRecovery_cases hrecovery
    · by_cases hserver : a = server
      · subst hserver
        rw [Function.update_self] at hr
        rcases (KeyValueDataBase.logsFrom_restore _ _).rounds key r hr with hown | hcopied
        · exact ⟨a, hrounds a hown⟩
        · exact ⟨c, hrounds c hcopied⟩
      · rw [Function.update_of_ne hserver] at hr
        exact ⟨a, hrounds a hr⟩
    · exact ⟨a, hrounds a hr⟩

variable {d d' : Deployment}

/-- The rounds stay numbered while nobody logs a new one. -/
theorem Numbered.of_rounds (h : Numbered key d)
    (hanswers : lastHandledWrite key d'.answers = lastHandledWrite key d.answers)
    (hrunning : ∀ a ∈ d.running, a ∈ d'.running)
    (hnew : ∀ a r, r ∈ (d'.servers a).kvDb.rounds key → ∃ b, r ∈ (d.servers b).kvDb.rounds key)
    (hkept : ∀ a ∈ d.running, ∀ r ∈ (d.servers a).kvDb.rounds key,
      r ∈ (d'.servers a).kvDb.rounds key) : Numbered key d' := by
  unfold Numbered at h ⊢
  rw [hanswers]
  split at h
  · intro a r hr
    obtain ⟨b, hb⟩ := hnew a r hr
    exact h b r hb
  · obtain ⟨round, hle, hreached⟩ := h
    refine ⟨round, fun a r hr => ?_, fun a ha => ?_⟩
    · obtain ⟨b, hb⟩ := hnew a r hr
      exact hle b r hb
    · obtain ⟨hup, hround⟩ := hreached a ha
      exact ⟨hrunning a hup, hkept a hup round hround⟩

/-- The latest round of a server that was reached by the last write. -/
theorem Numbered.latestRound (h : Numbered key d) {server : Addr}
    (hserver : ∀ write ∈ lastHandledWrite key d.answers, server ∈ write.reached) (a : Addr) :
    ∀ r ∈ (d.servers a).kvDb.rounds key, r ≤ (d.servers server).kvDb.latestRound key := by
  unfold Numbered at h
  split at h
  · exact fun r hr => absurd hr (h a r)
  · rename_i write hwrite
    obtain ⟨round, hle, hreached⟩ := h
    have hround := KeyValueDataBase.le_latestRound (hreached server (hserver write hwrite)).2
    exact fun r hr => (hle a r hr).trans hround

section Request

variable {server : Addr} {request : ClientRequest} {reach : List Addr}
  {randomFail : Message → Addr → Bool} {answer : Answer} {servers : Servers}

/-- A handled PUT or DELETE logs one more round, at all servers that could be
reached. -/
theorem rounds_of_write (hsound : Sound stubs d) (hkey : key ≠ "coordinator")
    (hflow : d.servers.requestFlow (fun a => a ∈ d.reached reach) randomFail server request =
      some (answer, servers))
    {update : Request} (hupdate : request.update = some update) (hat : request.key = key)
    {handler : Addr} (hby : answer.handledBy = some handler) :
    (∀ a r, r ∈ (servers a).kvDb.rounds key → r ∈ (d.servers a).kvDb.rounds key ∨
        r = (d.servers handler).kvDb.latestRound key + 1) ∧
      ∀ a ∈ d.reached reach,
        (d.servers handler).kvDb.latestRound key + 1 ∈ (servers a).kvDb.rounds key := by
  have hkey' := (ClientRequest.key_of_update hupdate).trans hat
  rcases run_of_write hsound.servers hflow hupdate hby with
    ⟨hreserved, _⟩ | ⟨_, chosen, hsound', hsame, _, rfl⟩
  · exact absurd (hat.symm.trans hreserved) hkey
  · rw [hat] at hsame
    have hround := round_of_sameAt hkey' (hsame handler)
    constructor
    · intro a r hr
      rw [← hkey'] at hr
      rcases Solo.mem_rounds_of_runPaxos hr with hold | hnew
      · exact Or.inl (((hsame a).rounds r).mp (hkey' ▸ hold))
      · exact Or.inr (hnew.trans hround)
    · intro a ha
      have hlive := @mem_live_of_reached stubs randomFail (d.reached reach) chosen handler a
        (hsound' handler) ha (hsound.listed a (List.mem_filter.mp ha).1)
      have hmem := @Solo.round_mem_of_runPaxos (fun a => a ∈ d.reached reach) randomFail chosen
        handler update a hlive
      rwa [hround, hkey'] at hmem

/-- A handover keeps the rounds numbered. -/
theorem numbered_answered (h : Numbered key d) (hsound : Sound stubs d)
    (hkey : key ≠ "coordinator")
    (hflow : d.servers.requestFlow (fun a => a ∈ d.reached reach) randomFail server request =
      some (answer, servers))
    (hover : (d.answered request (d.reached reach) answer).IsHandledWrite key →
      ∀ write ∈ lastHandledWrite key d.answers,
        (d.answered request (d.reached reach) answer).HandledAmong write) :
    Numbered key
      { d with
        servers := servers
        answers := d.answered request (d.reached reach) answer :: d.answers } := by
  by_cases hnew : (d.answered request (d.reached reach) answer).IsHandledWrite key
  · obtain ⟨⟨hat, hsome⟩, hhandled⟩ := id hnew
    obtain ⟨update, hupdate⟩ := Option.isSome_iff_exists.mp hsome
    obtain ⟨handler, hby⟩ := Option.isSome_iff_exists.mp hhandled
    obtain ⟨hrounds, hreached⟩ := rounds_of_write hsound hkey hflow hupdate hat hby
    have hmem : ∀ write ∈ lastHandledWrite key d.answers, handler ∈ write.reached :=
      fun write hwrite => (hover hnew write hwrite).mem hby
    have hlast : lastHandledWrite key
        (d.answered request (d.reached reach) answer :: d.answers) =
        some (d.answered request (d.reached reach) answer) :=
      List.find?_cons_of_pos (by simpa using hnew)
    unfold Numbered
    rw [hlast]
    refine ⟨(d.servers handler).kvDb.latestRound key + 1, fun a r hr => ?_, fun a ha => ?_⟩
    · rcases hrounds a r hr with hold | rfl
      · have hle := h.latestRound hmem a r hold
        omega
      · exact le_rfl
    · exact ⟨(List.mem_filter.mp ha).1, hreached a ha⟩
  · have hlast : lastHandledWrite key
        (d.answered request (d.reached reach) answer :: d.answers) =
        lastHandledWrite key d.answers := List.find?_cons_of_neg (by simpa using hnew)
    have hsame : ∀ a, Solo.SameAt key (d.servers a) (servers a) := by
      cases hby : answer.handledBy with
      | none =>
        obtain ⟨chosen, helected, ⟨_, rfl, _⟩ | ⟨handler, _, _, _, hby', _⟩⟩ :=
          requestFlow_cases hflow
        · rcases helected with rfl | ⟨status, helection⟩
          · exact fun a => .refl key _
          · exact electNewCoordinator_sameAt hsound.servers helection hkey
        · rw [hby'] at hby
          cases hby
      | some handler =>
        refine requestFlow_sameAt hsound.servers hflow hkey fun update hupdate heq => ?_
        have hkey' := ClientRequest.key_of_update hupdate
        refine hnew ⟨⟨hkey'.symm.trans heq, Option.isSome_iff_exists.mpr ⟨update, hupdate⟩⟩, ?_⟩
        exact Option.isSome_iff_exists.mpr ⟨handler, hby⟩
    exact h.of_rounds hlast (fun a ha => ha) (fun a r hr => ⟨a, ((hsame a).rounds r).mp hr⟩)
      fun a _ r hr => ((hsame a).rounds r).mpr hr

end Request

/-- The rounds of a key are numbered as long as its coordinators hand over. -/
theorem numbered_of_reachable (h : (deployment stubs).Reachable (Served stubs) d)
    (hkey : key ≠ "coordinator") : HandsOver key d.answers → Numbered key d := by
  refine h.invariant (I := fun d => HandsOver key d.answers → Numbered key d) ?_ ?_
  · rintro d rfl _ a r
    simp [initial, freshServer]
  · intro d act d' hreach hcond hstep hd hover
    have hsound := sound_of_reachable hreach
    cases step_cases hstep with
    | @started server reach randomFail status servers hdown hlisted hinit hok =>
      refine (hd hover).of_rounds rfl (fun a => List.mem_cons_of_mem server)
        (fun a r => rounds_initializeServer hsound.servers hinit hkey) fun a ha r => ?_
      refine ((initializeServer_sameAt hsound.servers hinit hkey ?_).rounds r).mpr
      rintro rfl
      exact hdown ha
    | @ended server reach randomFail status servers hdown hlisted hinit =>
      refine (hd hover).of_rounds rfl (fun a ha => ha) (fun a r hr => ?_) fun a ha r hr => ?_
      · replace hr : r ∈ (Function.update servers server (freshServer stubs server)
          a).kvDb.rounds key := hr
        by_cases ha : a = server
        · subst ha
          rw [Function.update_self] at hr
          simp [freshServer] at hr
        · rw [Function.update_of_ne ha] at hr
          exact rounds_initializeServer hsound.servers hinit hkey hr
      · have hne : a ≠ server := by
          rintro rfl
          exact hdown ha
        show r ∈ (Function.update servers server (freshServer stubs server) a).kvDb.rounds key
        rw [Function.update_of_ne hne]
        exact ((initializeServer_sameAt hsound.servers hinit hkey hne).rounds r).mpr hr
    | answered hup hflow =>
      exact numbered_answered (hd hover.2) hsound hkey hflow hover.1
    | crashed hup => exact hcond.elim

/-! ## Fresh reads from reachability alone -/

/-- Every PUT or DELETE that was answered OK is on a key of the clients, and it
was handled with the highest round of the key if the coordinators hand over. -/
theorem upToDate_of_reachable (h : (deployment stubs).Reachable (Served stubs) d) :
    ∀ x ∈ d.answers, x.IsWrite key → x.answer.status.ok = true →
      key ≠ "coordinator" ∧ (HandsOver key d.answers → x.upToDate = true) := by
  refine h.invariant (I := fun d => ∀ x ∈ d.answers, x.IsWrite key →
    x.answer.status.ok = true → key ≠ "coordinator" ∧
      (HandsOver key d.answers → x.upToDate = true)) ?_ ?_
  · rintro d rfl x hx
    cases hx
  · intro d act d' hreach hcond hstep hd
    have hsound := sound_of_reachable hreach
    cases step_cases hstep with
    | started hdown hlisted hinit hok => exact hd
    | ended hdown hlisted hinit => exact hd
    | crashed hup => exact hcond.elim
    | @answered server request reach randomFail answer servers hup hflow =>
      refine List.forall_mem_cons.mpr ⟨fun hwrite hok => ?_, fun x hx hwrite hok => ?_⟩
      · have hhandled := handled_of_ok hsound.servers (decide_eq_true hcond.1) hflow hok
        obtain ⟨handler, hby⟩ := Option.isSome_iff_exists.mp hhandled
        obtain ⟨update, hupdate⟩ := Option.isSome_iff_exists.mp hwrite.2
        have hkey : request.key ≠ "coordinator" := by
          rcases run_of_write hsound.servers hflow hupdate hby with ⟨_, hfailed⟩ | ⟨hkey, _⟩
          · rw [show answer.status.ok = true from hok] at hfailed
            cases hfailed
          · exact hkey
        refine ⟨hwrite.1 ▸ hkey, fun hover => ?_⟩
        have hamong : ∀ write ∈ lastHandledWrite key d.answers, handler ∈ write.reached :=
          fun write hlast => (hover.1 ⟨hwrite, hhandled⟩ write hlast).mem hby
        obtain ⟨rfl, _⟩ := hwrite
        have hlatest := (numbered_of_reachable hreach hkey hover.2).latestRound hamong
        show answer.handledBy.any _ = true
        rw [hby]
        exact decide_eq_true fun a _ => hlatest a
      · obtain ⟨hkey, hlatest⟩ := hd x hx hwrite hok
        exact ⟨hkey, fun hover => hlatest hover.2⟩

/-- Where coordinators hand over, a GET is fresh if it is handled by a server
that could be reached during the last PUT or DELETE. -/
theorem freshReads_of_handsOver (h : (deployment stubs).Reachable (Served stubs) d)
    (hover : ∀ key, key ≠ "coordinator" → HandsOver key d.answers) :
    FreshReads (fun read write => read.HandledAmong write) d.answers := by
  refine (freshReads_of_reachable h).mono fun read write hmem hwrite hok hamong => ?_
  obtain ⟨hkey, hlatest⟩ := upToDate_of_reachable h write hmem hwrite hok
  exact ⟨hlatest (hover _ hkey), hamong⟩

end

end Deployment

end PaxosKVStore
