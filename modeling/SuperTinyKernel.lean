import SuperTinyKernel.Switches
import SuperTinyKernel.Delivery
import SuperTinyKernel.Deadlines
import SuperTinyKernel.Inheritance
import SuperTinyKernel.Timers.Rearming
import SuperTinyKernel.Timers.Scans
import SuperTinyKernel.Sync.RWMutex
import SuperTinyKernel.Sync.PipeWakeups
import SuperTinyKernel.Sync.Pacing
import SuperTinyKernel.Memory.BytePoolStale
import SuperTinyKernel.Memory.BlockPoolRuns
import SuperTinyKernel.Strategies.Rotation
import SuperTinyKernel.Strategies.RaisedThreshold
import SuperTinyKernel.Strategies.Smooth
import SuperTinyKernel.Slices
import SuperTinyKernel.Strategies.Schedulability
import SuperTinyKernel.Posix.Keys
import SuperTinyKernel.FreeRtos.QueueSet
import SuperTinyKernel.FreeRtos.Notification
import SuperTinyKernel.Posix.Mq
import SuperTinyKernel.Posix.TimedWaits
import SuperTinyKernel.FreeRtos.DelayUntil
import SuperTinyKernel.Memory.Aligned
