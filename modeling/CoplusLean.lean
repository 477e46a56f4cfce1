import CoplusLean.Lib.Run
import CoplusLean.Lib.MachineInt
import CoplusLean.Proofs.SlowQueueRuns
import CoplusLean.Proofs.LocalQueueRuns
import CoplusLean.Proofs.FastStackThreads
import CoplusLean.Proofs.QueueTokens
import CoplusLean.Proofs.QueueConservation
import CoplusLean.Proofs.QueueOrder
import CoplusLean.Proofs.QueuePop
import CoplusLean.Proofs.LocalQueueTickets
import CoplusLean.Proofs.LocalQueueHazard
import CoplusLean.Proofs.LocalQueueLinear
import CoplusLean.Proofs.SchedulerPlaces
import CoplusLean.Proofs.FiberControl
import CoplusLean.Proofs.AwaitTimers
import CoplusLean.Proofs.ChannelAlerts
import CoplusLean.Proofs.ChannelFifo
import CoplusLean.Proofs.SyncChannelAlerts
import CoplusLean.Proofs.MessageRoundTrip
import CoplusLean.Proofs.ReceiveIsolation
import CoplusLean.Proofs.ArenaGuarantees
import CoplusLean.Proofs.ArenaFailure
import CoplusLean.Proofs.ArenaAlignment
import CoplusLean.Proofs.ArenaFrame
import CoplusLean.Proofs.ArenaIndices
import CoplusLean.Proofs.ArenaUnlisted
import CoplusLean.Proofs.ArenaCarving
import CoplusLean.Proofs.RelayTargets
import CoplusLean.Proofs.TableRoundTrip
import CoplusLean.Proofs.PoolSize
import CoplusLean.Proofs.SplitLimit
import CoplusLean.Proofs.ClientCommands
import CoplusLean.Proofs.ListReplies
import CoplusLean.Proofs.ServeCalls
import CoplusLean.Proofs.ChannelClose
import CoplusLean.Proofs.SyncChannelClose
import CoplusLean.Proofs.PopHardProgress
import CoplusLean.Proofs.PoolTasks
