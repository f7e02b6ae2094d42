import HuesOS.Async.PollRuns
import HuesOS.Boot.Measurement
import HuesOS.Broker.AuditLog
import HuesOS.Broker.RateLimiter
import HuesOS.Fault.Extable
import HuesOS.Hxfs.ClientCalls
import HuesOS.Hxfs.FailedCalls
import HuesOS.Hxfs.ReplayCrash
import HuesOS.Ipc.ChannelClose
import HuesOS.Ipc.HandleRuns
import HuesOS.Ipc.ReaderWakes
import HuesOS.Memory.BuddyRuns
import HuesOS.Memory.PmmInit
import HuesOS.Memory.Quarantine
import HuesOS.Nvme.BlockRange
import HuesOS.Nvme.StaleCommands
import HuesOS.Object.ExitPackets
import HuesOS.Object.Resources
import HuesOS.Object.VmoCharges
import HuesOS.Pci.Lease
import HuesOS.Pci.ParentChains
import HuesOS.Sched.Bandwidth
import HuesOS.Sched.Cbs
import HuesOS.Sched.Clock
import HuesOS.Sched.DirectoryLocate
import HuesOS.Sched.DirectoryOperations
import HuesOS.Sched.EevdfSelect
import HuesOS.Sched.InboxDelivery
import HuesOS.Sched.Job
import HuesOS.Sched.LifecycleWakes
import HuesOS.Sched.RunqueueLeaks
import HuesOS.Sched.SmtGate
import HuesOS.Sched.TaskCreation
import HuesOS.Sched.ZombieStore
import HuesOS.Sync.MutualExclusion
import HuesOS.Tpm.PcrRead
import HuesOS.Vm.Frames
import HuesOS.Vm.PageWalk
import HuesOS.Vm.TransactionRuns
import HuesOS.Vm.VmarSections
