import TaskRunner.Base.Machine
import TaskRunner.Queue.Broker

/-!
The queue as a machine: the calls the scheduler issues, one after another, each under the lock.
Threads that call the queue at the same time only choose the order.
-/

namespace TaskRunner
open Base InMemoryTaskQueue

/-- What `TaskEnvelope(spec=spec.normalized())` is built from. -/
structure Submission where
  spec : TaskSpec
  taskId : String
  createdAt : ℚ
  availableAt : ℚ

def Submission.envelope (s : Submission) : TaskEnvelope where
  spec := s.spec.normalized
  taskId := s.taskId
  createdAt := s.createdAt
  availableAt := s.availableAt

inductive Call where
  | submit (task : Submission) (clock : Clock)
  | submitMany (tasks : List Submission) (clock : Clock)
  | reserve (worker : WorkerInfo) (completed : Finset String) (leaseSeconds : ℚ) (clock : Clock)
  | complete (taskId : String) (status : TaskStatus) (error : Option String)
  | retry (taskId reason : String) (clock : Clock)
  | cancel (taskId : String)
  | requeueExpiredLeases (clock : Clock)
  | snapshot (now : ℚ)

/-- The scheduler issues the call: the ids of submitted tasks are new, and `report_result` completes
a task as succeeded or cancelled only. -/
def Call.Issued (q : InMemoryTaskQueue) : Call → Prop
  | .submit task _ => task.taskId ∉ q.tasks
  | .submitMany tasks _ => (∀ task ∈ tasks, task.taskId ∉ q.tasks) ∧ (tasks.map Submission.taskId).Nodup
  | .complete _ status _ => status = .succeeded ∨ status = .cancelled
  | _ => True

/-- The calls that make ids known. -/
def Call.submits : Call → Bool
  | .submit .. | .submitMany .. => true
  | _ => false

instance (q : InMemoryTaskQueue) (call : Call) : Decidable (call.Issued q) :=
  match call with
  | .submit task _ => inferInstanceAs (Decidable (task.taskId ∉ q.tasks))
  | .submitMany tasks _ =>
    inferInstanceAs (Decidable ((∀ task ∈ tasks, task.taskId ∉ q.tasks) ∧ (tasks.map Submission.taskId).Nodup))
  | .complete _ status _ => inferInstanceAs (Decidable (status = .succeeded ∨ status = .cancelled))
  | .reserve .. | .retry .. | .cancel _ | .requeueExpiredLeases _ | .snapshot _ => inferInstanceAs (Decidable True)

namespace InMemoryTaskQueue

/-- The queue after a call. An exception leaves it as far as the call had come. -/
def exec (q : InMemoryTaskQueue) : Call → InMemoryTaskQueue
  | .submit task clock => (q.submit task.envelope clock).2
  | .submitMany tasks clock => (q.submitMany (tasks.map Submission.envelope) clock).2
  | .reserve worker completed leaseSeconds clock => (q.reserve worker completed leaseSeconds clock).2
  | .complete taskId status error => (q.complete taskId status error).2
  | .retry taskId reason clock => (q.retry taskId reason clock).2
  | .cancel taskId => (q.cancel taskId).2
  | .requeueExpiredLeases clock => (q.requeueExpiredLeases clock).2
  | .snapshot now => (q.snapshot now).2

/-- A call nobody issues changes nothing. -/
def step (q : InMemoryTaskQueue) (call : Call) : InMemoryTaskQueue :=
  if call.Issued q then q.exec call else q

/-- The id of the task a `reserve` call returns. -/
def handed (q : InMemoryTaskQueue) : Call → Option String
  | .reserve worker completed leaseSeconds clock =>
    match q.reserve worker completed leaseSeconds clock with
    | (.ok (some task), after) => some (after.objects task).taskId
    | _ => none
  | _ => none

def init (maxDepth : Int) : InMemoryTaskQueue := { maxDepth }

/-- The queue after the calls, from an empty one. -/
def runCalls (maxDepth : Int) (calls : List Call) : InMemoryTaskQueue := Machine.run step (init maxDepth) calls

/-- The task an id names. -/
def task? (q : InMemoryTaskQueue) (taskId : String) : Option TaskEnvelope := (q.tasks.get? taskId).map q.objects

end InMemoryTaskQueue

end TaskRunner
