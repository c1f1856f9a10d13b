import PaxosKVStore.Client
import PaxosKVStore.Transcript

/-!
# A session from the launch to the last line

`run_server.py` starts the servers one after the other, and gives each of them
the list of all.  Then a client of any of them runs its own tests, and sends
what the user types.  If nobody goes down, and no acceptor fails at random
while the requests are handled, all of it works, and the client prints what it
would print with one map.  During the launch there is nothing to fail at
random, since elections are on the reserved key.
-/

namespace PaxosKVStore

/-! ## The servers -/

/-- `ServerConfig`, without the fail rate: the actions say what fails. -/
structure ServerConfig where
  myAddr : String
  myPaxos : Addr
  replica : List Addr

namespace RunServer

/-- The addresses of server `i` for clients and for the other servers. -/
def serverAddress (i : Nat) : String × Addr :=
  ("0.0.0.0:" ++ toString (8000 + i), "0.0.0.0:" ++ toString (9000 + i))

def serverAddresses (numReplicas : Nat) : List (String × Addr) :=
  (List.range numReplicas).map serverAddress

def serverConfigs (numReplicas : Nat) : List ServerConfig :=
  (serverAddresses numReplicas).map fun address =>
    { myAddr := address.1
      myPaxos := address.2
      replica := (serverAddresses numReplicas).map Prod.snd }

/-- The server that a client of `address` is connected to, if nobody else
listens there. -/
def listener (configs : List ServerConfig) (address : String) : Option Addr :=
  match configs.filter fun config => config.myAddr = address ∨ config.myPaxos = address with
  | [config] => if config.myAddr = address then some config.myPaxos else none
  | _ => none

/-- The servers of the scripts. -/
def paxosAddresses (numReplicas : Nat) : List Addr :=
  (serverAddresses numReplicas).map Prod.snd

/-- Different ports make different addresses. -/
theorem port_injective {port port' : Nat}
    (h : "0.0.0.0:" ++ toString port = "0.0.0.0:" ++ toString port') : port = port' := by
  have hdigits : Nat.toDigits 10 port = Nat.toDigits 10 port' := by
    have hlist := congrArg String.toList h
    rw [String.toList_append, String.toList_append] at hlist
    exact Nat.toList_repr.symm.trans ((List.append_cancel_left hlist).trans Nat.toList_repr)
  have hport := congrArg (Nat.ofDigitChars 10 · 0) hdigits
  simpa only [Nat.ofDigitChars_toDigits (by decide : 1 < 10) (Nat.le_refl 10)] using hport

theorem nodup_paxosAddresses (numReplicas : Nat) : (paxosAddresses numReplicas).Nodup := by
  rw [paxosAddresses, serverAddresses, List.map_map]
  exact List.nodup_range.map fun i j h => Nat.add_left_cancel (port_injective h)

theorem nonempty_paxosAddresses (numReplicas : Nat) : "" ∉ paxosAddresses numReplicas := by
  simp [paxosAddresses, serverAddresses, serverAddress]

theorem mem_paxosAddresses {numReplicas i : Nat} (hi : i < numReplicas) :
    (serverAddress i).2 ∈ paxosAddresses numReplicas :=
  List.mem_map_of_mem (List.mem_map_of_mem (List.mem_range.mpr hi))

/-- From 1001 servers on, the ports of the two services overlap. -/
theorem listener_serverAddress {numReplicas i : Nat} (hports : numReplicas ≤ 1000)
    (hi : i < numReplicas) :
    listener (serverConfigs numReplicas) (serverAddress i).1 = some (serverAddress i).2 := by
  have hsame : ∀ j, ((serverAddress j).1 = (serverAddress i).1 ∨
      (serverAddress j).2 = (serverAddress i).1) ↔ j = i := by
    refine fun j => ⟨fun h => ?_, fun h => Or.inl (h ▸ rfl)⟩
    rcases h with h | h
    · exact Nat.add_left_cancel (port_injective h)
    · have hport : 9000 + j = 8000 + i := port_injective h
      omega
  have hone : (List.range numReplicas).filter (fun j => decide (j = i)) = [i] := by
    rw [List.filter_eq, List.nodup_range.count, if_pos (List.mem_range.mpr hi)]
    rfl
  unfold listener
  simp only [serverConfigs, serverAddresses, List.map_map, List.filter_map, Function.comp_def,
    hsame, hone, List.map_cons, List.map_nil, if_true]

end RunServer

/-! ## The client -/

namespace Client

/-- The client prints a line, or sends a request and prints the answer. -/
inductive Turn where
  | print (line : String)
  | send (request : ClientRequest)

/-- A request is announced before it is sent. -/
def sending (request : ClientRequest) : List Turn :=
  let text := match request with
    | .get key => "GET " ++ key
    | .put key value => "PUT " ++ key ++ " " ++ value
    | .delete key => "DELETE " ++ key
  [.print ("Sending request: " ++ text), .send request]

def prepopulate : List Turn :=
  let keyValues :=
    [("apple", "red"), ("lemon", "yellow"), ("orange", "orange"), ("strawberry", "red"),
      ("watermelon", "green"), ("grape", "purple"), ("coconut", "brown"), ("avocado", "green")]
  [.print "************************************************",
    .print "Prepopulating key value store.",
    .print "------------------------------------------------"] ++
  keyValues.flatMap fun (key, value) =>
    [.print ("Prepopulating: " ++ key ++ " " ++ value), .send (.put key value)]

def testRuns : List Turn :=
  let keyValues :=
    [("banana", "yellow"), ("coconut", "white"), ("blueberry", "blue"), ("kiwi", "brown"),
      ("apple", "green")]
  let rule := [.print "------------------------------------------------"]
  [.print "************************************************",
    .print "Start testing PUT, GET, DELETE operations."] ++ rule ++
  keyValues.flatMap (fun (key, _) => sending (.delete key)) ++ rule ++
  keyValues.flatMap (fun (key, _) => sending (.get key)) ++ rule ++
  keyValues.flatMap (fun (key, value) => sending (.put key value)) ++ rule ++
  keyValues.flatMap (fun (key, _) => sending (.get key)) ++ rule ++
  [.print "End of test.", .print "************************************************"]

/-- The loop of `RunClient`. -/
def queryLoop : List String → List Turn
  | [] => []
  | query :: queries =>
      match command query with
      | .exit => []
      | .send request => sending request ++ queryLoop queries
      | .invalid => .print "Invalid command." :: queryLoop queries

/-- `RunClient`, with all that it prints. -/
def session (serverAddress : String) (autoRun : Bool) (queries : List String) : List Turn :=
  [.print ("Listening to server_address: " ++ serverAddress)] ++
  (if autoRun then prepopulate ++ testRuns else []) ++
  [.print "Please enter your request: (Separate words with a white space.)",
    .print "Query examples: (Keywords GET/PUT/DELETE are NOT case-sensitive.)",
    .print "\"GET apple\" / \"PUT apple red\" / \"DELETE apple\""] ++
  queryLoop queries

/-- `main`, with `none` where it prints how to use it. -/
def main (argv queries : List String) : Option (List Turn) :=
  if argv.length ≤ 2 then none
  else
    let serverAddress := argv.getD 1 ""
    let autoRunStr := toLowerCase (argv.getD 2 "")
    let start := [.print ("Server address set to " ++ serverAddress)]
    if autoRunStr = "true" then some (start ++ session serverAddress true queries)
    else if autoRunStr = "false" then some (start ++ session serverAddress false queries)
    else none

/-- The requests among the turns. -/
def sent (turns : List Turn) : List ClientRequest :=
  turns.filterMap fun
    | .print _ => none
    | .send request => some request

/-- The lines that are printed, where the last lines about the requests are
`answers`. -/
def output : List Turn → List String → List String
  | [], _ => []
  | .print line :: turns, answers => line :: output turns answers
  | .send _ :: _, [] => []
  | .send _ :: turns, line :: answers => line :: output turns answers

theorem sent_append (turns turns' : List Turn) :
    sent (turns ++ turns') = sent turns ++ sent turns' := List.filterMap_append

/-- The loop sends the requests that the lines denote. -/
theorem sent_queryLoop (queries : List String) : sent (queryLoop queries) = runClient queries := by
  induction queries with
  | nil => rfl
  | cons query queries ih =>
    rw [queryLoop, runClient]
    cases command query with
    | exit => rfl
    | send request => exact congrArg (request :: ·) ih
    | invalid => exact ih

theorem sent_session (serverAddress : String) (autoRun : Bool) (queries : List String) :
    sent (session serverAddress autoRun queries) =
      sent (if autoRun then prepopulate ++ testRuns else []) ++ runClient queries := by
  rw [session, sent_append, sent_append, sent_append, sent_queryLoop]
  exact congrArg (· ++ runClient queries) (List.append_nil _)

/-- The tests come first, if they are asked for. -/
theorem sent_main {argv queries : List String} {turns : List Turn}
    (h : main argv queries = some turns) :
    ∃ tests ∈ [[], prepopulate ++ testRuns], sent turns = sent tests ++ runClient queries := by
  unfold main at h
  split at h
  · cases h
  · dsimp only at h
    split at h
    · cases h
      exact ⟨_, List.mem_cons_of_mem _ (List.mem_singleton_self _),
        sent_session (argv.getD 1 "") true queries⟩
    · split at h
      · cases h
        exact ⟨_, List.mem_cons_self, sent_session (argv.getD 1 "") false queries⟩
      · cases h

end Client

/-- The same with one map that never fails. -/
def AtomicMap.output (map : AtomicMap) : List Client.Turn → List String
  | [] => []
  | .print line :: turns => line :: map.output turns
  | .send request :: turns =>
      Client.line request (map.answer request) :: (map.after request).output turns

theorem AtomicMap.output_transcript (map : AtomicMap) (turns : List Client.Turn) :
    Client.output turns (map.transcript (Client.sent turns)) = map.output turns := by
  induction turns generalizing map with
  | nil => rfl
  | cons turn turns ih =>
    cases turn with
    | print line => exact congrArg (line :: ·) (ih map)
    | send request => exact congrArg (Client.line request (map.answer request) :: ·) (ih _)

/-! ## The run -/

namespace Deployment

open RunServer

variable {stubs : PaxosStubs} {d : Deployment} {C server : Addr} {reach : List Addr}

/-- A server that is not up can be started. -/
theorem start_ready (hempty : "" ∉ stubs.addrs)
    (h : (deployment stubs).Reachable (fun d act => d.SteadyAt C act ∧ act.Reliable) d)
    {randomFail : Message → Addr → Bool} (hlisted : server ∈ stubs.addrs)
    (hdown : server ∉ d.running) (hsteady : d.SteadyAt C (.start server reach randomFail)) :
    ∃ d', step stubs d (.start server reach randomFail) = some d' ∧
      (deployment stubs).Reachable (fun d act => d.SteadyAt C act ∧ act.Reliable) d' ∧
      d'.running = server :: d.running ∧ d'.answers = d.answers := by
  have hsound := sound_of_reachable h
  obtain ⟨⟨status, servers⟩, hinit⟩ := Option.isSome_iff_exists.mp
    (@initializeServer_isSome stubs d.servers server hsound.servers hlisted
      (fun heq => hempty (heq ▸ hlisted)) (fun a => a ∈ server :: d.reached reach) (by simp)
      randomFail)
  have hok : status.ok = true := by
    rcases exact_of_reachable hempty h with hidle | ⟨map, hexact⟩
    · obtain rfl : server = C := by
        rwa [SteadyAt, if_pos hidle.running] at hsteady
      exact (ledBy_first (fun heq => hempty (heq ▸ hlisted)) hsound hidle hlisted hinit).1
    · rw [SteadyAt, if_neg (List.ne_nil_of_mem hexact.led.up)] at hsteady
      exact (chooses_of_ledBy hempty hsound hexact.led hsteady hdown hlisted hinit).1
  have hnew : ¬ (server ∈ d.running ∨ server ∉ stubs.addrs) := by simp [hdown, hlisted]
  have hstep : step stubs d (.start server reach randomFail) = some
      { d with
        servers := servers
        running := server :: d.running
        starts := { server, running := d.running, before := d.servers, after := servers } ::
          d.starts } := by
    simp only [step, if_neg hnew, hinit, hok, if_true]
  exact ⟨_, hstep, h.next ⟨hsteady, trivial⟩ hstep, rfl, rfl⟩

/-- A server that is up can be asked. -/
theorem request_ready (hempty : "" ∉ stubs.addrs)
    (h : (deployment stubs).Reachable (fun d act => d.SteadyAt C act ∧ act.Reliable) d)
    (hup : server ∈ d.running) (hreach : C ∈ reach) (request : ClientRequest) :
    ∃ d', step stubs d (.request server request reach fun _ _ => false) = some d' ∧
      (deployment stubs).Reachable (fun d act => d.SteadyAt C act ∧ act.Reliable) d' ∧
      d'.running = d.running ∧ d'.requests = d.requests ++ [request] := by
  have hsound := sound_of_reachable h
  have hne : server ≠ "" := fun heq => hempty (heq ▸ hsound.listed server hup)
  obtain ⟨d', hstep⟩ := Option.isSome_iff_exists.mp
    ((step_isSome hsound hne reach fun _ _ => false).2 hup request)
  have hsteady : d.SteadyAt C (.request server request reach fun _ _ => false) := hreach
  refine ⟨d', hstep, h.next ⟨hsteady, fun _ _ => rfl⟩ hstep, ?_⟩
  have hcases : StepCases stubs d (.request server request reach fun _ _ => false) d' :=
    step_cases hstep
  cases hcases with
  | answered hup hflow => exact ⟨rfl, by simp [requests, answered]⟩

/-- All of them come up, one after the other. -/
theorem starts_ready (hempty : "" ∉ stubs.addrs) (hreach : C ∈ reach)
    (randomFail : Addr → Message → Addr → Bool) (addrs : List Addr)
    (h : (deployment stubs).Reachable (fun d act => d.SteadyAt C act ∧ act.Reliable) d)
    (hlisted : ∀ a ∈ addrs, a ∈ stubs.addrs) (hnodup : addrs.Nodup)
    (hdown : ∀ a ∈ addrs, a ∉ d.running)
    (hfirst : d.running = [] → ∀ a ∈ addrs.head?, a = C) :
    ∃ d', (addrs.map fun a => Action.start a reach (randomFail a)).foldlM (step stubs) d =
        some d' ∧
      (deployment stubs).Reachable (fun d act => d.SteadyAt C act ∧ act.Reliable) d' ∧
      d'.running = addrs.reverse ++ d.running ∧ d'.answers = d.answers := by
  induction addrs generalizing d with
  | nil => exact ⟨d, rfl, h, rfl, rfl⟩
  | cons first rest ih =>
    rw [List.forall_mem_cons] at hlisted hdown
    rw [List.nodup_cons] at hnodup
    have hsteady : d.SteadyAt C (.start first reach (randomFail first)) := by
      rw [SteadyAt]
      split
      · rename_i hnone
        exact hfirst hnone first rfl
      · exact hreach
    obtain ⟨d1, hstep, h1, hrunning, hanswers⟩ :=
      start_ready hempty h hlisted.1 hdown.1 hsteady
    have hdown' : ∀ a ∈ rest, a ∉ d1.running := by
      intro a ha
      rw [hrunning, List.mem_cons, not_or]
      exact ⟨fun heq => hnodup.1 (heq ▸ ha), hdown.2 a ha⟩
    obtain ⟨d', hrest, h', hrunning', hanswers'⟩ := ih h1 hlisted.2 hnodup.2 hdown'
      (fun hnone => absurd (hrunning.symm.trans hnone) (List.cons_ne_nil _ _))
    refine ⟨d', ?_, h', ?_, hanswers'.trans hanswers⟩
    · rw [List.map_cons, List.foldlM_cons, hstep]
      exact hrest
    · rw [hrunning', hrunning, List.reverse_cons, List.append_assoc]
      rfl

/-- All requests are answered, one after the other. -/
theorem requests_ready (hempty : "" ∉ stubs.addrs) (hreach : C ∈ reach)
    (asked : List ClientRequest)
    (h : (deployment stubs).Reachable (fun d act => d.SteadyAt C act ∧ act.Reliable) d)
    (hup : server ∈ d.running) :
    ∃ d', (asked.map fun request => Action.request server request reach fun _ _ => false).foldlM
        (step stubs) d = some d' ∧
      (deployment stubs).Reachable (fun d act => d.SteadyAt C act ∧ act.Reliable) d' ∧
      d'.running = d.running ∧ d'.requests = d.requests ++ asked := by
  induction asked generalizing d with
  | nil => exact ⟨d, rfl, h, rfl, (List.append_nil _).symm⟩
  | cons request rest ih =>
    obtain ⟨d1, hstep, h1, hrunning, hasked⟩ := request_ready hempty h hup hreach request
    obtain ⟨d', hrest, h', hrunning', hasked'⟩ := ih h1 (hrunning ▸ hup)
    refine ⟨d', ?_, h', hrunning'.trans hrunning, ?_⟩
    · rw [List.map_cons, List.foldlM_cons, hstep]
      exact hrest
    · rw [hasked', hasked, List.append_assoc]
      rfl

/-- `run_server.py`.  Every server can reach those that were started before. -/
def launch (numReplicas : Nat) (randomFail : Addr → Message → Addr → Bool) : List Action :=
  (serverConfigs numReplicas).map fun config =>
    .start config.myPaxos config.replica (randomFail config.myPaxos)

/-- The requests of a client of `server`.  While they are handled all servers
can be reached, and no acceptor fails at random. -/
def calls (numReplicas : Nat) (server : Addr) (turns : List Client.Turn) : List Action :=
  (Client.sent turns).map fun request =>
    .request server request (paxosAddresses numReplicas) fun _ _ => false

/-- Whatever its lines are, the client of a server prints what it would print
with one map that never fails, if no acceptor fails at random either. -/
theorem output_of_launch {numReplicas : Nat} {randomFail : Addr → Message → Addr → Bool}
    {argv queries : List String} {turns : List Client.Turn} {i : Nat}
    (hports : numReplicas ≤ 1000) (hi : i < numReplicas)
    (hmain : Client.main argv queries = some turns)
    (haddress : argv.getD 1 "" = (serverAddress i).1) :
    ∃ server ∈ listener (serverConfigs numReplicas) (argv.getD 1 ""), ∃ d,
      (launch numReplicas randomFail ++ calls numReplicas server turns).foldlM
        (step (.ofReplicas (paxosAddresses numReplicas)))
        (initial (.ofReplicas (paxosAddresses numReplicas))) = some d ∧
      d.running = (paxosAddresses numReplicas).reverse ∧
      (∀ a ∈ d.running, (d.servers a).paxosStubsMap.coordinator = (serverAddress 0).2) ∧
      (∃ tests ∈ [[], Client.prepopulate ++ Client.testRuns],
        d.requests = Client.sent tests ++ Client.runClient queries) ∧
      Client.output turns d.transcript = AtomicMap.initial.output turns := by
  have hfirst : (paxosAddresses numReplicas).head? = some (serverAddress 0).2 := by
    obtain ⟨n, rfl⟩ := Nat.exists_eq_add_one_of_ne_zero (Nat.ne_zero_of_lt hi)
    simp [paxosAddresses, serverAddresses, List.range_succ_eq_map]
  have hmem := List.mem_of_mem_head? hfirst
  have hempty : "" ∉ (PaxosStubs.ofReplicas (paxosAddresses numReplicas)).addrs := by
    rw [PaxosStubs.mem_ofReplicas]
    exact nonempty_paxosAddresses numReplicas
  have hlaunch : launch numReplicas randomFail = (paxosAddresses numReplicas).map fun a =>
      .start a (paxosAddresses numReplicas) (randomFail a) := by
    simp only [launch, serverConfigs, paxosAddresses, List.map_map]
    rfl
  obtain ⟨d1, hstarts, h1, hrunning, hanswers⟩ := starts_ready hempty hmem randomFail
    (paxosAddresses numReplicas) (.start rfl) (fun a => PaxosStubs.mem_ofReplicas.mpr)
    (nodup_paxosAddresses numReplicas) (fun a _ => List.not_mem_nil)
    (fun _ a ha => Option.some.inj (ha.symm.trans hfirst))
  have hrunning1 : d1.running = (paxosAddresses numReplicas).reverse :=
    hrunning.trans (List.append_nil _)
  have hup1 : (serverAddress i).2 ∈ d1.running := by
    rw [hrunning1]
    exact List.mem_reverse.mpr (mem_paxosAddresses hi)
  obtain ⟨d, hcalls, h, hrunning', hasked⟩ := requests_ready hempty hmem (Client.sent turns) h1 hup1
  have hrequests : d.requests = Client.sent turns := by
    rw [hasked, requests, hanswers]
    rfl
  have hexact := exact_of_reachable hempty h
  refine ⟨_, haddress ▸ listener_serverAddress hports hi, d, ?_, hrunning'.trans hrunning1,
    fun a ha => ?_, ?_, ?_⟩
  · rw [List.foldlM_append, hlaunch, hstarts]
    exact hcalls
  · rcases hexact with hidle | ⟨map, hexact⟩
    · rw [hidle.running] at ha
      cases ha
    · exact hexact.led.followed a ha
  · rw [hrequests]
    exact Client.sent_main hmain
  · rw [transcript_of_idle_or_exact hexact, hrequests]
    exact AtomicMap.initial.output_transcript turns

set_option maxRecDepth 10000 in
/-- After its tests the client of the second server is asked for an apple. -/
theorem output_secondServer :
    ∃ turns, Client.main ["./client", "0.0.0.0:8001", "True"] ["get apple", "EXIT"] = some turns ∧
      ∃ server ∈ listener (serverConfigs 3) "0.0.0.0:8001", ∃ d,
        (launch 3 (fun _ _ _ => false) ++ calls 3 server turns).foldlM
          (step (.ofReplicas (paxosAddresses 3))) (initial (.ofReplicas (paxosAddresses 3))) =
            some d ∧
        (Client.output turns d.transcript).getLast? = some "apple : green" := by
  have hmain :
      ∃ turns ∈ Client.main ["./client", "0.0.0.0:8001", "True"] ["get apple", "EXIT"],
        (AtomicMap.initial.output turns).getLast? = some "apple : green" := by
    decide +kernel
  obtain ⟨turns, hmain, hlast⟩ := hmain
  obtain ⟨server, hserver, d, hrun, _, _, _, houtput⟩ := @output_of_launch 3 (fun _ _ _ => false)
    ["./client", "0.0.0.0:8001", "True"] ["get apple", "EXIT"] turns 1 (by decide) (by decide)
    hmain (by decide)
  exact ⟨turns, hmain, server, hserver, d, hrun, houtput ▸ hlast⟩

end Deployment

end PaxosKVStore
