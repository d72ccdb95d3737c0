import Aegis.Foundation.Call
import Aegis.Foundation.Machine
import Aegis.Foundation.History
import Aegis.Foundation.Successor
import Aegis.Foundation.Forest
import Aegis.Foundation.Ring
import Aegis.Foundation.Matching
import Aegis.Foundation.Rendezvous
import Aegis.Foundation.Overwrite
import Aegis.Foundation.Cell
import Aegis.Foundation.Locality
import Aegis.Foundation.RoundRobin
import Aegis.Foundation.Tenure
import Aegis.Foundation.Bitmap
import Aegis.Foundation.Slots
import Aegis.Capability.Model
import Aegis.Capability.LeaseTree
import Aegis.Capability.Forest
import Aegis.Capability.Refinement
import Aegis.Capability.WellFormed
import Aegis.Syscall
import Aegis.Capability.Provenance
import Aegis.Capability.Confinement
import Aegis.Capability.Revocation
import Aegis.Ipc.Model
import Aegis.Ipc.Fifo
import Aegis.Ipc.Transition
import Aegis.Ipc.Evaluation
import Aegis.Ipc.Refinement
import Aegis.Ipc.Coherence
import Aegis.Ipc.Deadlock
import Aegis.Ipc.Delivery
import Aegis.Ipc.Answerable
import Aegis.Ipc.Inbox
import Aegis.Ipc.OneShot
import Aegis.Ipc.ArrivalOrder
import Aegis.Ipc.Independence
import Aegis.Ipc.Atomicity
import Aegis.A64.Machine
import Aegis.A64.Memory
import Aegis.A64.Fill
import Aegis.A64.Translation
import Aegis.Sched.Model
import Aegis.Sched.Transition
import Aegis.Sched.Fairness
import Aegis.Sched.Fault
import Aegis.Sched.Accounting
import Aegis.Preempt.Model
import Aegis.Preempt.Switching
import Aegis.Preempt.Tick
import Aegis.Preempt.Isolation
import Aegis.Memory.Model
import Aegis.Memory.Transition
import Aegis.Memory.FrameSet
import Aegis.Memory.Reservation
import Aegis.Memory.Placement
import Aegis.Paging.Model
import Aegis.Paging.Policy
import Aegis.Paging.Encoding
import Aegis.Paging.FiniteMap
import Aegis.Boot.Model
import Aegis.Boot.Execution
import Aegis.Boot.Tables
import Aegis.Boot.AddressMap
import Aegis.Runtime.Model
import Aegis.Runtime.Protocol
import Aegis.A64.Listing
import Aegis.A64.Exception
import Aegis.A64.Reset
import Aegis.A64.User
import Aegis.Boot.Entry
import Aegis.Device.Gic
import Aegis.Irq.Model
import Aegis.Irq.Alarm
import Aegis.Irq.Protocol
import Aegis.Live.Program
import Aegis.Live.Console
import Aegis.Live.Model
import Aegis.Live.Sandbox
import Aegis.Live.Guard
import Aegis.Live.Refinement
import Aegis.Live.Isolation
import Aegis.Live.Turns
import Aegis.Live.Service
import Aegis.Live.Demo
import Aegis.Live.Stages
import Aegis.Live.Completion
import Aegis.Live.Kernel
import Aegis.Live.Launch
import Aegis.Live.Startup
import Aegis.Live.Reset
import Aegis.Foundation.Share
import Aegis.Sched.Share
