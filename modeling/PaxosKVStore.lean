import PaxosKVStore.Lib.ActionSystem
import PaxosKVStore.Lib.Majority
import PaxosKVStore.Lib.Visit
import PaxosKVStore.Lib.Entries
import PaxosKVStore.Lib.Register
import PaxosKVStore.Lib.Kept
import PaxosKVStore.Lib.Contiguous
import PaxosKVStore.Lib.Getline
import PaxosKVStore.KvDatabase
import PaxosKVStore.PaxosStubsMap
import PaxosKVStore.MultiPaxosService
import PaxosKVStore.RunPaxos
import PaxosKVStore.System
import PaxosKVStore.Provenance
import PaxosKVStore.History
import PaxosKVStore.Delivery
import PaxosKVStore.Agreement
import PaxosKVStore.Adoption
import PaxosKVStore.Quorums
import PaxosKVStore.Elections
import PaxosKVStore.AtomicMap
import PaxosKVStore.Exclusive
import PaxosKVStore.Following
import PaxosKVStore.Refinement
import PaxosKVStore.FixedCoordinator
import PaxosKVStore.Overtaking
import PaxosKVStore.Convergence
import PaxosKVStore.Solo
import PaxosKVStore.Reference
import PaxosKVStore.Schedule
import PaxosKVStore.Nominations
import PaxosKVStore.Recovery
import PaxosKVStore.Discovery
import PaxosKVStore.StartUp
import PaxosKVStore.RequestFlow
import PaxosKVStore.FrontEnd
import PaxosKVStore.Client
import PaxosKVStore.Deployment
import PaxosKVStore.Restart
import PaxosKVStore.StaleReads
import PaxosKVStore.Handover
import PaxosKVStore.Learning
import PaxosKVStore.Alike
import PaxosKVStore.RecoveredReplica
import PaxosKVStore.InterleavedInforms
import PaxosKVStore.InterleavedPhases
import PaxosKVStore.Projection
import PaxosKVStore.NonInterference
import PaxosKVStore.Cluster
import PaxosKVStore.Origins
import PaxosKVStore.Decided
import PaxosKVStore.Rounds
import PaxosKVStore.CoordinatorStub
import PaxosKVStore.ClientCalls
import PaxosKVStore.ExecutedOnce
import PaxosKVStore.Promises
import PaxosKVStore.Acceptances
import PaxosKVStore.Course
import PaxosKVStore.Candidates
import PaxosKVStore.ElectionRound
import PaxosKVStore.OneCoordinator
import PaxosKVStore.CoordinatorRuns
import PaxosKVStore.MissedRuns
import PaxosKVStore.LiveRecovery
import PaxosKVStore.Lib.Linearizability
import PaxosKVStore.Store
import PaxosKVStore.Linearizable
import PaxosKVStore.Within
import PaxosKVStore.Failover
import PaxosKVStore.FaultTolerance
import PaxosKVStore.Steady
import PaxosKVStore.Transcript
import PaxosKVStore.Launch
import PaxosKVStore.CallByCall
import PaxosKVStore.Validity
import PaxosKVStore.Messages
import PaxosKVStore.Lib.Progress
import PaxosKVStore.Lib.Simulation
import PaxosKVStore.Termination
import PaxosKVStore.Duels
