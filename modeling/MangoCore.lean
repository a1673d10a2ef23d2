import MangoCore.Mm.FrameSystem
import MangoCore.Mm.StackGrowth
import MangoCore.Mm.LazyMerge
import MangoCore.Mm.Discard
import MangoCore.Mm.HeapRuns
import MangoCore.Mm.Zram
import MangoCore.Fs.PosixLockSearch
import MangoCore.Fs.PosixLockWake
import MangoCore.Fs.FdTableRelease
import MangoCore.Fs.PipeAtomic
import MangoCore.Fs.PipeEndsReachable
import MangoCore.Fs.MountReplication
import MangoCore.Fs.MountChanges
import MangoCore.Fs.DentryFresh
import MangoCore.Fs.Ext4LifetimeSync
import MangoCore.Fs.Chroot
import MangoCore.Fs.SearchAccess
import MangoCore.Fs.FatChains
import MangoCore.Fs.BackendLifecycle
import MangoCore.Hal.ByteRing
import MangoCore.Mm.MmuGather
import MangoCore.Mm.UserCopy
import MangoCore.Net.PortOwners
import MangoCore.Net.PortEphemeral
import MangoCore.Net.UnixStreamRuns
import MangoCore.Net.UnixConnect
import MangoCore.Task.RecycleAllocatorRuns
import MangoCore.Task.SharedResources
import MangoCore.Task.ReapingParents
import MangoCore.Task.RegistryRuns
import MangoCore.Ipc.SemaphoreOutside
import MangoCore.Ipc.MsgQueueOrder
import MangoCore.Ipc.PosixMqRuns
import MangoCore.Ipc.SharedMemoryRuns
import MangoCore.Task.SchedulerContainers
import MangoCore.Task.SignalQueue
