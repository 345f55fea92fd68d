import LinuxDriver.TransitionSystem
import LinuxDriver.Progress
import LinuxDriver.ModuleRuns
import LinuxDriver.CallPool
import LinuxDriver.KernelTypes
import LinuxDriver.CMemory
import LinuxDriver.CountingLock
import LinuxDriver.LoadStoreCounter
import LinuxDriver.SharedCounter
import LinuxDriver.NumberedBlocks
import LinuxDriver.PendingQueue
import LinuxDriver.SignalFlag
import LinuxDriver.RegisterFile
import LinuxDriver.SyncAtomicOpen
import LinuxDriver.SyncLockedWrite
import LinuxDriver.SyncLockedWriteProgress
import LinuxDriver.SyncSemaphore
import LinuxDriver.SyncCompletion
import LinuxDriver.SyncCompletionProgress
import LinuxDriver.ChardevSleepy
import LinuxDriver.ChardevSleepyInterrupt
import LinuxDriver.ChardevSleepyProgress
import LinuxDriver.KernelResources
import LinuxDriver.KernelMemory
import LinuxDriver.MemoryLoading
import LinuxDriver.SyncLoading
import LinuxDriver.ProcLoading
import LinuxDriver.ChrdevCreation
import LinuxDriver.ChardevLoading
import LinuxDriver.ChardevSleepyLoading
import LinuxDriver.ChardevExclusive
import LinuxDriver.PlatformProbe
import LinuxDriver.PlatformBinding
import LinuxDriver.KernelStrings
import LinuxDriver.ChardevAttributes
import LinuxDriver.ChardevTexts
import LinuxDriver.ChardevBufferRace
import LinuxDriver.ChardevAttributeLife
import LinuxDriver.WrappedTime
import LinuxDriver.TimerJiffies
import LinuxDriver.KernelTimer
import LinuxDriver.TimerCallback
import LinuxDriver.InterruptLine
import LinuxDriver.InputI2c
import LinuxDriver.InputI2cProbe
import LinuxDriver.InputKey
import LinuxDriver.IrqWorkqueue
import LinuxDriver.IrqWorkqueueLifecycle
import LinuxDriver.IrqWorkqueueConservation
import LinuxDriver.IrqWorkqueueRotation
import LinuxDriver.IrqWorkqueueProgress
import LinuxDriver.IrqSystemWorkqueue
import LinuxDriver.IrqSystemWorkqueueRuns
import LinuxDriver.IrqTasklet
import LinuxDriver.IrqTaskletRuns
import LinuxDriver.IrqSharedLine
import LinuxDriver.ThreadLifecycle
import LinuxDriver.ThreadExit
