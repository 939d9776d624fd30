import SmIpc.Lib.PairedLists
import SmIpc.Lib.Machine
import SmIpc.Lib.CircularBuffer
import SmIpc.Lib.BoundedFifo
import SmIpc.Lib.DoublyLinked
import SmIpc.Lib.History
import SmIpc.Lib.Linearizable
import SmIpc.Lib.Sections
import SmIpc.Lib.Semaphores
import SmIpc.Lib.ThreadPool
import SmIpc.Lib.Slots
import SmIpc.Lib.Divider
import SmIpc.Lib.UniqueNames
import SmIpc.Lib.ReusedSlots
import SmIpc.Sm.Message
import SmIpc.Sm.MessageFifo
import SmIpc.Sm.MessageCursors
import SmIpc.Sm.MessageSearch
import SmIpc.Sm.RingCode
import SmIpc.Sm.MessageThreads
import SmIpc.Sm.Window
import SmIpc.Sm.Tick
import SmIpc.Sm.System
import SmIpc.Sm.SystemSteps
import SmIpc.Sm.TickSlots
import SmIpc.Sm.TickPeriod
import SmIpc.Sm.TickBacklog
import SmIpc.Sm.TickUnrecognised
import SmIpc.Sm.Activations
import SmIpc.Sm.Delivery
import SmIpc.Sm.Creation
import SmIpc.Sm.SystemWindows
import SmIpc.Sm.WindowList
import SmIpc.Sm.CloseClean
import SmIpc.Sm.Handles
import SmIpc.Sm.Fates
import SmIpc.Sm.Drain
import SmIpc.Sm.Locks
import SmIpc.Sm.LockSteps
import SmIpc.Sm.AccessMutex
import SmIpc.Sm.LockOrder
import SmIpc.Sm.Places
import SmIpc.Sm.LocksSim
import SmIpc.Sm.LocksThreads
import SmIpc.Sm.LocksRefine
import SmIpc.Sm.NoFreed
import SmIpc.Sm.OpenWindow
import SmIpc.Sm.LocksDeliver
import SmIpc.Sm.WindowWalks
import SmIpc.Sm.WindowLinks
import SmIpc.Sm.WindowPoints
import SmIpc.Sm.TickSem
import SmIpc.Os.Base
import SmIpc.Os.Queue
import SmIpc.Os.QueueFifo
import SmIpc.Os.QueueThreads
import SmIpc.Os.QueueWakeups
import SmIpc.Os.QueueDestroy
import SmIpc.Os.QueueCreate
import SmIpc.Os.QueueBytes
import SmIpc.Os.Event
import SmIpc.Os.EventCounts
import SmIpc.Os.Tasks
import SmIpc.Os.TaskNodes
import SmIpc.Os.TaskCalls
import SmIpc.Os.TaskApi
import SmIpc.Os.TaskReclaim
import SmIpc.Os.TaskIdentity
import SmIpc.Os.TaskIds
import SmIpc.Os.TaskNames
import SmIpc.Os.TaskControl
import SmIpc.Os.TaskLookup
import SmIpc.Os.TaskPriority
import SmIpc.Os.Clock
import SmIpc.Os.SysTime
import SmIpc.Os.Ticker
import SmIpc.Os.TickTask
import SmIpc.Os.TickEarly
import SmIpc.Os.TickWait
import SmIpc.Os.TickTable
import SmIpc.Os.TickHistory
import SmIpc.Os.TickPass
import SmIpc.Os.TickInfo
import SmIpc.Os.TickRefine
import SmIpc.Os.TickPosts
import SmIpc.Os.TickCalls
import SmIpc.Os.TickAtomic
