import TwoPL.Lib.Runs
import TwoPL.Lib.Serial
import TwoPL.Lib.StrictTwoPhase
import TwoPL.Lib.Termination
import TwoPL.Lib.UnlockedLookup
import TwoPL.Lib.Mutexes
import TwoPL.Storage
import TwoPL.StripedStore
import TwoPL.LockManager
import TwoPL.LockClients
import TwoPL.PollingLoops
import TwoPL.LockRecords
import TwoPL.LookupClients
import TwoPL.LockMutexes
import TwoPL.LockSections
import TwoPL.Coordinator
import TwoPL.NodeNames
import TwoPL.Json
import TwoPL.Scheduler
import TwoPL.LockResponses
import TwoPL.Trace
import TwoPL.SingleNode
import TwoPL.DisjointTransactions
import TwoPL.Executors
import TwoPL.Maelstrom
import TwoPL.MessageHandler
import TwoPL.FilledReply
import TwoPL.TruthfulReply
import TwoPL.Replies
import TwoPL.Wire
import TwoPL.Framing
import TwoPL.CoordinatorMessages
import TwoPL.ConcurrentSends
import TwoPL.Cluster
import TwoPL.ExclusiveGrants
import TwoPL.RemoteLocks
import TwoPL.RemoteReleases
import TwoPL.AllOrNothing
import TwoPL.OpenNode
import TwoPL.RemoteOperations
import TwoPL.ReadSlots
import TwoPL.CallMessages
import TwoPL.Bookkeeping
import TwoPL.LocalLocks
import TwoPL.CallProgress
import TwoPL.Quiescence
import TwoPL.LookupNode
import TwoPL.LookupHandlers
import TwoPL.LockTraffic
import TwoPL.OpTraffic
import TwoPL.WakeUps
import TwoPL.DistributedSerial
import TwoPL.LookupCluster
import TwoPL.TraceableReads
import TwoPL.ClusterRest
import TwoPL.Process
import TwoPL.WireSerial
import TwoPL.LookupProcess
import TwoPL.WiredCluster
import TwoPL.Lib.AtomicObject
import TwoPL.StoreThreads
import TwoPL.WiredSerial
