import LoonyRuntime.Concurrent.Machine
import LoonyRuntime.Concurrent.Threads
import LoonyRuntime.Concurrent.Monitor
import LoonyRuntime.Concurrent.History
import LoonyRuntime.Concurrent.Simulation
import LoonyRuntime.Memory.Region
import LoonyRuntime.Memory.Arc
import LoonyRuntime.Memory.Heap
import LoonyRuntime.Scoped.Guards
import LoonyRuntime.Collections.MaxHeap
import LoonyRuntime.Collections.Worklist
import LoonyRuntime.Collections.Queue
import LoonyRuntime.Task.State
import LoonyRuntime.Task.Allocation
import LoonyRuntime.Task.OutputSlot
import LoonyRuntime.Task.Operational
import LoonyRuntime.Task.Account
import LoonyRuntime.Task.Scheduling
import LoonyRuntime.Task.References
import LoonyRuntime.Task.Placement
import LoonyRuntime.Task.Join
import LoonyRuntime.Task.Output
import LoonyRuntime.Task.JoinReturn
import LoonyRuntime.Task.Consumption
import LoonyRuntime.Task.Wake
import LoonyRuntime.Task.Wakers
import LoonyRuntime.Task.Word
import LoonyRuntime.Task.Manual
import LoonyRuntime.Task.Local
import LoonyRuntime.Task.Plain
import LoonyRuntime.Task.PlainJoin
import LoonyRuntime.Task.Lifecycle
import LoonyRuntime.Task.Finished
import LoonyRuntime.Task.Yield
import LoonyRuntime.Task.Deallocation
import LoonyRuntime.Task.Callback
import LoonyRuntime.Runtime.Park
import LoonyRuntime.Runtime.ParkWord
import LoonyRuntime.Runtime.FlagPark
import LoonyRuntime.Runtime.ParkWakers
import LoonyRuntime.Runtime.Context
import LoonyRuntime.Runtime.BlockOn
import LoonyRuntime.Runtime.BlockOnCount
import LoonyRuntime.Runtime.CurrentThread
import LoonyRuntime.Runtime.CurrentThread.Loops
import LoonyRuntime.Runtime.CurrentThread.BlockOn
import LoonyRuntime.Runtime.MultiThread.Operational
import LoonyRuntime.Runtime.MultiThread.Steps
import LoonyRuntime.Runtime.MultiThread.Ledger
import LoonyRuntime.Runtime.MultiThread.Sleep
import LoonyRuntime.Runtime.MultiThread.Shutdown
import LoonyRuntime.Runtime.MultiThread.Active
import LoonyRuntime.Runtime.MultiThread.Stealing
import LoonyRuntime.Runtime.MultiThread.Panic
import LoonyRuntime.Runtime.MultiThread.New
import LoonyRuntime.Runtime.MultiThread.Order
import LoonyRuntime.Runtime.MultiThread.Progress
import LoonyRuntime.Runtime.MultiThread.BlockOn
import LoonyRuntime.Time.Driver
import LoonyRuntime.Time.Sleep
import LoonyRuntime.Time.Process
import LoonyRuntime.Time.Parker
import LoonyRuntime.Time.Timeout
import LoonyRuntime.Runtime.WorkerContext
