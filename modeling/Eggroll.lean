import Eggroll.ActiveCountRuns
import Eggroll.BatchBrokerDelivery
import Eggroll.BatchLimit
import Eggroll.BatchReplay
import Eggroll.ByteBuffer
import Eggroll.ContainerKill
import Eggroll.Containers
import Eggroll.DeepspeedRanks
import Eggroll.Destroy
import Eggroll.DispatchResidue
import Eggroll.DispatchRetry
import Eggroll.ExpectedStatus
import Eggroll.FailingInput
import Eggroll.FixDispatch
import Eggroll.GcRecorder
import Eggroll.JobDownload
import Eggroll.JobKill
import Eggroll.Library.Chunks
import Eggroll.Library.Filling
import Eggroll.Library.Grouping
import Eggroll.Library.Locking
import Eggroll.Library.Polling
import Eggroll.Library.Threads
import Eggroll.Library.Traverse
import Eggroll.LmdbAdapter
import Eggroll.LockCaches
import Eggroll.LockLeaks
import Eggroll.LockOrder
import Eggroll.LockRefinement
import Eggroll.LockUtils
import Eggroll.MetaRoundTrip
import Eggroll.NodeConservation
import Eggroll.NodeHeartbeat
import Eggroll.NodeIdentity
import Eggroll.NodePlacing
import Eggroll.NodeProtocol
import Eggroll.NodeRecount
import Eggroll.NodeRegistration
import Eggroll.ObjectTransfer
import Eggroll.PairWrites
import Eggroll.ProcessorHeartbeat
import Eggroll.PullDelivery
import Eggroll.PullOne
import Eggroll.PushRetries
import Eggroll.PushingLatch
import Eggroll.RandomDispatch
import Eggroll.ReadAll
import Eggroll.Reduce
import Eggroll.RemainMostFirst
import Eggroll.Rendezvous
import Eggroll.ResourceAdmission
import Eggroll.ResourceOutcome
import Eggroll.RollSiteDelivery
import Eggroll.SessionAtomicity
import Eggroll.SessionLatch
import Eggroll.SessionOnce
import Eggroll.SessionRouting
import Eggroll.ShuffleConservation
import Eggroll.ShuffleLog
import Eggroll.ShuffleProgress
import Eggroll.ShuffleWork
import Eggroll.SingleNodeFirst
import Eggroll.StoreConsistency
import Eggroll.StoreCreation
import Eggroll.StoreDelete
import Eggroll.StoreFork
import Eggroll.StoreNodes
import Eggroll.StoreTask
import Eggroll.StreamChunks
import Eggroll.SubmitUtils
import Eggroll.TableMaps
import Eggroll.TableMerge
import Eggroll.TableQueries
import Eggroll.TerminalStatus
import Eggroll.ThreadPool
import Eggroll.TransferKeys
import Eggroll.TransferService
import Eggroll.TransferServicer
import Eggroll.WithStores
import Eggroll.WorkingDirectory
import Eggroll.WorkingDirectoryNames
