import Minix.Foundation.FlagWord
import Minix.Foundation.IntrusiveList
import Minix.Foundation.Draw
import Minix.Foundation.WaitGraph
import Minix.Foundation.Rendezvous
import Minix.Kernel.Types
import Minix.Kernel.Sched
import Minix.Kernel.ReadyQueue
import Minix.Kernel.Ipc
import Minix.Kernel.Clock
import Minix.Kernel.System
import Minix.Kernel.Schedcheck
import Minix.Kernel.Step
import Minix.Kernel.Calls
import Minix.Kernel.SchedStep
import Minix.Kernel.Lottery
import Minix.Kernel.Run
import Minix.Kernel.Timers
import Minix.Kernel.ReadyRun
import Minix.Kernel.DeadlineTimers
import Minix.Kernel.DeadlineQueue
import Minix.Kernel.Chdeadline
import Minix.Kernel.Quantum
import Minix.Kernel.Notify
import Minix.Kernel.EarliestDeadline
import Minix.Kernel.IpcNet
import Minix.Kernel.IpcDeath
import Minix.Kernel.Deadlock
import Minix.Kernel.MessageRun
import Minix.Kernel.SenderQueue
import Minix.Kernel.Privctl
import Minix.Kernel.Privileges
import Minix.Kernel.PrivilegeRun
import Minix.Kernel.Fork
import Minix.Kernel.Operation
import Minix.Kernel.DeliverySlot
import Minix.Kernel.Dispatch
import Minix.Kernel.Signals
import Minix.Kernel.Irq
import Minix.Kernel.IrqHooks
import Minix.Kernel.Umap
import Minix.Kernel.Endpoint
import Minix.Foundation.Ranges
import Minix.Vm.Alloc
import Minix.Vm.Region
import Minix.Vm.Layout
import Minix.Vm.LayoutRun
import Minix.Foundation.DoublyLinked
import Minix.Foundation.HashChain
import Minix.Mfs.Cache
import Minix.Mfs.CacheRun
import Minix.Vfs.Lock
import Minix.Vfs.State
import Minix.Vfs.Wait
import Minix.Vfs.Pipe
import Minix.Vfs.Calls
import Minix.Vfs.Main
import Minix.Foundation.Tally
import Minix.Vfs.Refs
import Minix.Vfs.Wakes
import Minix.Vfs.Effects
import Minix.Vfs.FileSteps
import Minix.Vfs.OpenSteps
import Minix.Vfs.CallSteps
import Minix.Vfs.PipeSteps
import Minix.Vfs.SelectSteps
import Minix.Vfs.MainSteps
import Minix.Vfs.Runs
import Minix.Vfs.Suspension
import Minix.Vfs.Awaited
import Minix.Vfs.LockRun
import Minix.Vfs.VnodeRefs
import Minix.Vfs.FileSize
import Minix.Foundation.CountedArray
import Minix.IpcServer.Sem
import Minix.IpcServer.SemQueues
import Minix.IpcServer.SemCalls
import Minix.IpcServer.SemRun
import Minix.IpcServer.SemAtomic
import Minix.IpcServer.SemWake
