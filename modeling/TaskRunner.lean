import TaskRunner.Base.Machine
import TaskRunner.Base.Heapq
import TaskRunner.Base.HeapOrder
import TaskRunner.Base.Buffers
import TaskRunner.Base.Locks
import TaskRunner.Shared.Models
import TaskRunner.Shared.Config
import TaskRunner.Shared.Events
import TaskRunner.Shared.Locks
import TaskRunner.Shared.Decoding
import TaskRunner.Queue.Calls
import TaskRunner.Queue.Lifecycle
import TaskRunner.Queue.Representation
import TaskRunner.Queue.Settling
import TaskRunner.Queue.Filing
import TaskRunner.Queue.Effect
import TaskRunner.Queue.Reaping
import TaskRunner.Queue.Placement
import TaskRunner.Queue.Backpressure
import TaskRunner.Queue.Custody
import TaskRunner.Queue.Heaps
import TaskRunner.Queue.Selection
import TaskRunner.Queue.Changes
import TaskRunner.Queue.Punctuality
import TaskRunner.Queue.Availability
import TaskRunner.Queue.Passes
import TaskRunner.Queue.Dispatchability
import TaskRunner.Queue.TieBreaks
import TaskRunner.Queue.Accounting
import TaskRunner.Database.Store
import TaskRunner.Scheduler.Engine
import TaskRunner.Scheduler.System
import TaskRunner.Scheduler.Projection
import TaskRunner.Scheduler.Batches
import TaskRunner.Scheduler.Guarantees
import TaskRunner.Scheduler.Retries
import TaskRunner.Scheduler.Passes
import TaskRunner.Scheduler.Routing
import TaskRunner.Scheduler.Waiting
import TaskRunner.Scheduler.Reports
import TaskRunner.Scheduler.Leases
import TaskRunner.Scheduler.Reservations
import TaskRunner.Scheduler.Delays
import TaskRunner.Scheduler.SubmissionOrder
import TaskRunner.Scheduler.Snapshots
import TaskRunner.Scheduler.Completion
import TaskRunner.Scheduler.Outbox
import TaskRunner.Scheduler.Mirror
import TaskRunner.Scheduler.WorkerRows
import TaskRunner.Scheduler.Roster
import TaskRunner.Grpc.Codec
import TaskRunner.Workers.Targets
import TaskRunner.Workers.Runtime
import TaskRunner.Workers.Capacity
import TaskRunner.Workers.Manager
import TaskRunner.Workers.Slots
import TaskRunner.Workers.Shutdown
import TaskRunner.Scheduler.Announcements
import TaskRunner.Scheduler.Broadcasts
import TaskRunner.Scheduler.Dispatches
import TaskRunner.Base.Queries
import TaskRunner.Database.Queries
import TaskRunner.Scheduler.Rows
import TaskRunner.Scheduler.Provenance
import TaskRunner.Base.Causality
import TaskRunner.Queue.Charges
import TaskRunner.Scheduler.Charges
import TaskRunner.Scheduler.DependencyOrder
import TaskRunner.Scheduler.Progress
import TaskRunner.Grpc.Messages
import TaskRunner.Grpc.Delivery
import TaskRunner.Base.BigEndian
import TaskRunner.Workers.Ipc
import TaskRunner.Workers.Counters
import TaskRunner.Base.FailureDetector
import TaskRunner.Scheduler.Suspicion
import TaskRunner.Workers.Tracing
import TaskRunner.Workers.Executions
