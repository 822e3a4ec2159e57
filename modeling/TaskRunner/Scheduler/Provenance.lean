import TaskRunner.Queue.Availability
import TaskRunner.Scheduler.Rows
import TaskRunner.Shared.Decoding

/-!
Where a task comes from: whatever happens to it, its spec stays the normalized spec of its submission, in the queue and
in the columns of its row that no upsert sets again.
-/

namespace TaskRunner
open Base InMemoryTaskQueue

/-- The task is the one submitted, however far it has come. -/
structure AsSubmitted (task : TaskEnvelope) (submission : Submission) : Prop where
  taskId : task.taskId = submission.taskId
  spec : task.spec = submission.spec.normalized
  createdAt : task.createdAt = submission.createdAt

/-- The columns an upsert of a stored task leaves alone hold what they were written with first. -/
structure Describes (row : TaskRow) (task : TaskEnvelope) : Prop where
  taskId : row.taskId = task.taskId
  queue : row.queue = task.spec.queue
  priority : row.priority = task.spec.priority
  target : row.target = task.spec.target
  payload : row.payloadJson = .obj task.spec.payload.entries
  spec : row.specJson = task.spec.toDict
  createdAt : row.createdAt = task.createdAt

/-- What no call assigns. -/
def SameTask (task task' : TaskEnvelope) : Prop :=
  task'.taskId = task.taskId ∧ task'.spec = task.spec ∧ task'.createdAt = task.createdAt

theorem Describes.same {row : TaskRow} {task task' : TaskEnvelope} (describes : Describes row task)
    (same : SameTask task task') : Describes row task' := by
  obtain ⟨taskId, spec, createdAt⟩ := same
  exact ⟨describes.taskId.trans taskId.symm, by rw [spec]; exact describes.queue, by rw [spec]; exact describes.priority,
    by rw [spec]; exact describes.target, by rw [spec]; exact describes.payload, by rw [spec]; exact describes.spec,
    describes.createdAt.trans createdAt.symm⟩

theorem AsSubmitted.same {task task' : TaskEnvelope} {submission : Submission} (given : AsSubmitted task submission)
    (same : SameTask task task') : AsSubmitted task' submission :=
  ⟨same.1.trans given.taskId, same.2.1.trans given.spec, same.2.2.trans given.createdAt⟩

theorem Life.retry_same (l : Life) (reason : String) (start now : ℚ) : SameTask l.task (l.retry reason start now).task := by
  unfold Life.retry
  dsimp only
  split <;> exact ⟨rfl, rfl, rfl⟩

namespace InMemoryTaskQueue

theorem Move.same {q : InMemoryTaskQueue} {call : Call} {id : String} {l l' : Life} (move : Move q call id l l') :
    SameTask l.task l'.task := by
  cases move with
  | settle settles =>
    rw [settles.task]
    exact ⟨rfl, rfl, rfl⟩
  | dispatch _ _ _ settles =>
    rw [← settles.task]
    exact ⟨rfl, rfl, rfl⟩
  | complete => exact ⟨rfl, rfl, rfl⟩
  | cancel => exact ⟨rfl, rfl, rfl⟩
  | retry => exact Life.retry_same ..
  | expire => exact Life.retry_same ..

/-- A call keeps the identity of every task. -/
theorem step_same {q : InMemoryTaskQueue} (rep : Represented q) (call : Call) {id : String} {task : TaskEnvelope}
    (named : q.task? id = some task) : ∃ task', (q.step call).task? id = some task' ∧ SameTask task task' := by
  obtain ⟨l, alive, rfl⟩ := life_of_task? named
  obtain ⟨l', alive', rfl | ⟨_, effect⟩⟩ := step_life rep call alive
  · exact ⟨_, task?_of_life alive', rfl, rfl, rfl⟩
  · exact ⟨_, task?_of_life alive', effect.move.same⟩

theorem queued_asSubmitted (submission : Submission) (now : ℚ) : AsSubmitted (queued submission now) submission :=
  ⟨rfl, TaskSpec.normalized_normalized _, rfl⟩

theorem submitMany_submitted {q : InMemoryTaskQueue} (rep : Represented q) {batch : List Submission}
    (new : (∀ submission ∈ batch, submission.taskId ∉ q.tasks) ∧ (batch.map Submission.taskId).Nodup) {clock : Clock}
    {id : String} {task : TaskEnvelope} (unknown : q.task? id = none)
    (named : (q.submitMany (batch.map Submission.envelope) clock).2.task? id = some task) :
    ∃ submission ∈ batch, AsSubmitted task submission := by
  rcases submitMany_introduces rep batch new.1 new.2 clock named with old | ⟨i, submission, place, _, _, rfl⟩
  · rw [unknown] at old
    cases old
  · exact ⟨submission, List.mem_of_getElem? place, queued_asSubmitted submission _⟩

end InMemoryTaskQueue

namespace System

/-- The submissions an event brings. -/
def submissions : Event → List Submission
  | .submit task _ => [task]
  | .submitBatch tasks _ => tasks
  | _ => []

/-- A step keeps the identity of every task. -/
theorem step_same {s : System} (rep : Represented s.engine.queue) (event : Event) {id : String} {task : TaskEnvelope}
    (named : s.engine.queue.task? id = some task) :
    ∃ task', (s.step event).engine.queue.task? id = some task' ∧ SameTask task task' :=
  step_keeps (I := fun q => ∃ task', q.task? id = some task' ∧ SameTask task task') ⟨task, named, rfl, rfl, rfl⟩
    fun call _ => InMemoryTaskQueue.step_same rep call named

/-- Only the calls of `submit` and `submit_batch` make ids known. -/
theorem tasks_kept {s : System} (rep : Represented s.engine.queue) {event : Event}
    (single : ∀ task clock, event ≠ .submit task clock) (batch : ∀ tasks clock, event ≠ .submitBatch tasks clock) :
    (s.step event).engine.queue.tasks = s.engine.queue.tasks := by
  refine step_keeps (I := fun q => q.tasks = s.engine.queue.tasks) rfl fun call made => ?_
  have silent : call.submits = false := by
    cases event with
    | submit task clock => exact (single task clock rfl).elim
    | submitBatch tasks clock => exact (batch tasks clock rfl).elim
    | reservePass | cancelTask | retryTask | queueSnapshot =>
      simp only [queueCall] at made
      split at made <;> cases made
      rfl
    | requeueExpired =>
      cases made
      rfl
    | proceed clock =>
      simp only [queueCall] at made
      split at made
      · obtain rfl := Option.some.inj made
        unfold reportCall
        split
        · rfl
        · split <;> rfl
      · cases made
    | _ => cases made
  by_cases issued : call.Issued s.engine.queue
  · rw [step_issued issued]
    exact (exec_stepped rep call issued).tasks silent
  · rw [InMemoryTaskQueue.step, if_neg issued]

/-- Every task a step brings is one of the submissions of its event. -/
theorem step_submitted {s : System} (rep : Represented s.engine.queue) (event : Event) {id : String}
    {task : TaskEnvelope} (named : (s.step event).engine.queue.task? id = some task)
    (new : s.engine.queue.task? id = none) : ∃ submission ∈ submissions event, AsSubmitted task submission := by
  have absent : ∀ {P : Prop}, s.engine.queue.task? id = some task → P := fun old => by
    rw [new] at old
    cases old
  have steps := step_steps s event
  obtain ⟨t, reached⟩ : ∃ t, t = s.step event := ⟨_, rfl⟩
  rw [← reached] at steps named
  cases steps with
  | stays => exact absent named
  | @submit submission clock unknown free =>
    rw [resume_queue] at named
    rcases submit_introduces rep submission unknown clock named with old | ⟨_, _, rfl⟩
    · exact absent old
    · exact ⟨submission, List.mem_cons_self, queued_asSubmitted submission _⟩
  | @batchRefused tasks clock error queue unknown free result =>
    have same : queue = (s.engine.queue.submitMany (tasks.map Submission.envelope) clock).2 := by rw [result]
    change queue.task? id = some task at named
    rw [same] at named
    exact submitMany_submitted rep unknown new named
  | @submitBatch tasks clock refs queue unknown free result =>
    have same : queue = (s.engine.queue.submitMany (tasks.map Submission.envelope) clock).2 := by rw [result]
    change queue.task? id = some task at named
    rw [same] at named
    exact submitMany_submitted rep unknown new named
  | _ =>
    rw [reached] at named
    obtain ⟨ref, found, _⟩ := Option.map_eq_some_iff.mp named
    rw [tasks_kept rep (fun _ _ same => by cases same) fun _ _ same => by cases same] at found
    rw [task?, found] at new
    cases new

/-- What every reachable state has. -/
structure Consistent (s : System) : Prop where
  represented : Represented s.engine.queue
  wired : Wired s
  sound : s.Sound

theorem consistent_init (config : Settings) : Consistent (init config) := by
  refine ⟨represented_init _, wired_init config, ?_⟩
  rintro task (framed | ⟨call, c, found, _⟩ | ⟨refs, waiting, _⟩)
  · cases framed
  · cases found
  · cases waiting

theorem step_consistent {s : System} (consistent : Consistent s) (event : Event) : Consistent (s.step event) := by
  obtain ⟨rep, wired, sound⟩ := consistent
  exact ⟨represented_step rep event, step_wired rep wired event, step_sound rep wired sound event⟩

theorem after_consistent (config : Settings) (events : List Event) : Consistent (after config events) :=
  Machine.run_invariant (I := Consistent) (fun _ event consistent => step_consistent consistent event)
    (consistent_init config) events

theorem after_submitted (config : Settings) (events : List Event) {id : String} {task : TaskEnvelope}
    (named : (after config events).engine.queue.task? id = some task) :
    ∃ submission ∈ events.flatMap submissions, AsSubmitted task submission := by
  induction events using List.reverseRecOn generalizing task with
  | nil => cases named
  | append_singleton events event ih =>
    have rep := after_represented config events
    rw [List.flatMap_append, List.flatMap_singleton]
    rw [show after config (events ++ [event]) = (after config events).step event from Machine.run_append _ _ _] at named
    cases old : (after config events).engine.queue.task? id with
    | none =>
      obtain ⟨submission, member, given⟩ := step_submitted rep event named old
      exact ⟨submission, List.mem_append_right _ member, given⟩
    | some before =>
      obtain ⟨submission, member, given⟩ := ih old
      obtain ⟨task', named', same⟩ := step_same rep event old
      obtain rfl := Option.some.inj (named'.symm.trans named)
      exact ⟨submission, List.mem_append_left _ member, given.same same⟩

/-! ### Rows -/

/-- Each row describes the task of its key. -/
def Registered (store : SQLiteStore) (q : InMemoryTaskQueue) : Prop :=
  ∀ id row, store.tasks.get? id = some row → ∃ task, q.task? id = some task ∧ Describes row task

theorem putTask_describes (store : SQLiteStore) (task : TaskEnvelope) (result : Option TaskResult) (now : ℚ)
    (before : ∀ row, store.tasks.get? task.taskId = some row → Describes row task) {row : TaskRow}
    (stored : (store.putTask task result now).tasks.get? task.taskId = some row) : Describes row task := by
  unfold SQLiteStore.putTask at stored
  dsimp only at stored
  split at stored
  · rw [Dict.get?_set_self, Option.some.injEq] at stored
    rw [← stored]
    exact ⟨rfl, rfl, rfl, rfl, rfl, rfl, rfl⟩
  · rename_i old found
    rw [Dict.get?_set_self, Option.some.injEq] at stored
    rw [← stored]
    obtain ⟨taskId, queue, priority, target, payload, spec, createdAt⟩ := before old found
    exact ⟨taskId, queue, priority, target, payload, spec, createdAt⟩

/-- A row that is put keeps each row at the description of its task. -/
theorem Registered.putTask {e : SchedulerEngine} (registered : Registered e.store e.queue) {ref : TaskRef}
    (rep : Represented e.queue) (known : ∃ id, e.queue.tasks.get? id = some ref) (result : Option TaskResult) (now : ℚ) :
    Registered (e.store.putTask (e.queue.objects ref) result now) e.queue := by
  obtain ⟨key, found⟩ := known
  have named := rep.named key ref found
  have task : e.queue.task? key = some (e.queue.objects ref) := by rw [task?, found]; rfl
  intro id row stored
  by_cases same : id = (e.queue.objects ref).taskId
  · subst same
    rw [named]
    refine ⟨e.queue.objects ref, task, putTask_describes e.store _ result now (fun old there => ?_) stored⟩
    obtain ⟨other, named', describes⟩ := registered _ old there
    rw [named, task, Option.some.injEq] at named'
    rw [named']
    exact describes
  · rw [SQLiteStore.putTask_other e.store _ result now same] at stored
    exact registered id row stored

/-- A write of a task keeps each row at the description of its task, whether it raises or not. -/
theorem Registered.storeTask {e : SchedulerEngine} (registered : Registered e.store e.queue) {ref : TaskRef}
    (rep : Represented e.queue) (known : ∃ id, e.queue.tasks.get? id = some ref) (result : Option TaskResult) (now : ℚ) :
    Registered (e.storeTask ref result now).2.store e.queue := by
  by_cases storable : SQLiteStore.Storable (e.queue.objects ref)
  · rw [SchedulerEngine.storeTask_ok e result now storable]
    exact registered.putTask rep known result now
  · obtain ⟨error, raised⟩ := SchedulerEngine.storeTask_error e result now storable
    rw [raised]
    exact registered

/-- A section of the running coroutine writes tasks it owes, as they are. -/
theorem proceed_registered {s : System} (rep : Represented s.engine.queue) (sound : s.Sound)
    (registered : Registered s.engine.store s.engine.queue) (clock : Clock) :
    Registered (s.proceed clock).engine.store (s.proceed clock).engine.queue := by
  have known : ∀ ref ∈ s.frame.owes, ∃ id, s.engine.queue.tasks.get? id = some ref := fun ref owes => sound ref (Or.inl owes)
  cases frame : s.frame with
  | settleReport result =>
    intro id row stored
    rw [settle_tasks frame clock] at stored
    obtain ⟨task, named, describes⟩ := registered id row stored
    obtain ⟨task', named', same⟩ := step_same rep (.proceed clock) named
    exact ⟨task', named', describes.same same⟩
  | storeTask task =>
    simp only [proceed, frame]
    exact registered.storeTask rep (known task (by rw [frame]; exact List.mem_cons_self)) none _
  | storeTasks tasks =>
    cases tasks with
    | nil =>
      simp only [proceed, frame]
      exact registered
    | cons task rest =>
      simp only [proceed, frame]
      exact registered.storeTask rep (known task (by rw [frame]; exact List.mem_cons_self)) none _
  | storeReport result task =>
    simp only [proceed, frame]
    intro id row stored
    rw [(SchedulerEngine.storeReport_store ..).1] at stored
    rw [SchedulerEngine.storeReport_changes]
    exact registered.storeTask rep (known task (by rw [frame]; exact List.mem_cons_self)) (some result) _ id row stored
  | idle | noteCompleted =>
    simp only [proceed, frame]
    exact registered

theorem step_registered {s : System} (rep : Represented s.engine.queue) (sound : s.Sound)
    (registered : Registered s.engine.store s.engine.queue) (event : Event) :
    Registered (s.step event).engine.store (s.step event).engine.queue := by
  by_cases running : ∃ clock, event = .proceed clock
  · obtain ⟨clock, rfl⟩ := running
    exact proceed_registered rep sound registered clock
  · intro id row stored
    rw [step_tasks s fun clock same => running ⟨clock, same⟩] at stored
    obtain ⟨task, named, describes⟩ := registered id row stored
    obtain ⟨task', named', same⟩ := step_same rep event named
    exact ⟨task', named', describes.same same⟩

theorem after_registered (config : Settings) (events : List Event) :
    Registered (after config events).engine.store (after config events).engine.queue := by
  have both := Machine.run_invariant (I := fun s => Consistent s ∧ Registered s.engine.store s.engine.queue)
    (fun s event given => ⟨step_consistent given.1 event, step_registered given.1.represented given.1.sound given.2 event⟩)
    ⟨consistent_init config, fun id row stored => by cases stored⟩ events
  exact both.2

/-- In every reachable state, however often a row was written, its fixed columns are those of a submission of its task,
normalized, and the spec it holds is read back as the spec the task has. -/
theorem rows_as_submitted (intOfText : String → Option Int) (floatOfText : String → Option ℚ) (config : Settings)
    (events : List Event) (id : String) (row : TaskRow)
    (stored : (after config events).engine.store.tasks.get? id = some row) :
    ∃ task, (after config events).engine.queue.task? id = some task ∧ Describes row task ∧
      (∃ submission ∈ events.flatMap submissions, AsSubmitted task submission) ∧
      TaskSpec.fromDict intOfText floatOfText row.specJson = .ok task.spec := by
  obtain ⟨task, named, describes⟩ := after_registered config events id row stored
  obtain ⟨submission, member, given⟩ := after_submitted config events named
  refine ⟨task, named, describes, ⟨submission, member, given⟩, ?_⟩
  rw [describes.spec, TaskSpec.fromDict_written, given.spec, TaskSpec.normalized_normalized]

theorem rows_as_submitted_sample :
    ∃ row, (after {} sampleAttempts).engine.store.tasks.get? "a" = some row ∧
      ∃ task, (after {} sampleAttempts).engine.queue.task? "a" = some task ∧ Describes row task ∧
        (∃ submission ∈ sampleAttempts.flatMap submissions, AsSubmitted task submission) ∧
        TaskSpec.fromDict String.toInt? (fun _ => none) row.specJson = .ok task.spec := by
  obtain ⟨row, stored⟩ := Option.isSome_iff_exists.mp
    (show ((after {} sampleAttempts).engine.store.tasks.get? "a").isSome = true by decide +kernel)
  exact ⟨row, stored, rows_as_submitted String.toInt? (fun _ => none) {} sampleAttempts "a" row stored⟩

/-! ### Recent tasks -/

/-- The row of a listed task shows it as it is. -/
structure Lists (listed : RecentTask) (task : TaskEnvelope) : Prop where
  status : listed.status = task.status.value
  attempts : listed.attempts = task.attempts
  error : listed.error = task.lastError
  assignedWorker : listed.assignedWorker = task.assignedWorker
  queue : listed.queue = task.spec.queue
  priority : listed.priority = task.spec.priority
  target : listed.target = task.spec.target
  payload : listed.payloadJson = .obj task.spec.payload.entries
  createdAt : listed.createdAt = task.createdAt

theorem row_lists {config : Settings} {events : List Event}
    (fine : Machine.Along step NoStoreError (init config) events) (quiet : Quiescent (after config events)) {id : String}
    {row : TaskRow} (stored : (after config events).engine.store.tasks.get? id = some row) :
    ∃ task, (after config events).engine.queue.task? row.taskId = some task ∧ Lists row.recent task := by
  obtain ⟨task, named, describes⟩ := after_registered config events id row stored
  obtain ⟨ref, found, rfl⟩ := Option.map_eq_some_iff.mp named
  have key := (after_represented config events).named id ref found
  rcases (after_mirrored fine).shown id ref found with owed | ⟨other, stored', shows⟩ | ⟨absent, _⟩
  · exact (quiet.settled ref owed).elim
  · obtain rfl := Option.some.inj (stored.symm.trans stored')
    refine ⟨_, by rw [describes.taskId, key]; exact named, ?_⟩
    exact ⟨shows.status, shows.attempts, shows.error, shows.assignedWorker, describes.queue, describes.priority,
      describes.target, describes.payload, describes.createdAt⟩
  · rw [stored] at absent
    cases absent

/-- When no write has raised and no operation is in progress, `recent_tasks` lists as many stored tasks as the limit lets
it, newest write first and none newer left out, each with the status, attempts, error, worker and submitted fields it
has now. -/
theorem recent_tasks_current (config : Settings) (events : List Event)
    (fine : Machine.Along step NoStoreError (init config) events) (quiet : Quiescent (after config events)) (n : Int) :
    let store := (after config events).engine.store
    (store.recentTasks n).length = (if n < 0 then store.tasks.keys.length else min n.toNat store.tasks.keys.length) ∧
      ((store.recentTasks n).Pairwise fun newer older => older.updatedAt ≤ newer.updatedAt) ∧
      (∀ listed ∈ store.recentTasks n,
        ∃ task, (after config events).engine.queue.task? listed.taskId = some task ∧ Lists listed task) ∧
      ∀ id row, store.tasks.get? id = some row → row.recent ∉ store.recentTasks n →
        ∀ listed ∈ store.recentTasks n, row.updatedAt ≤ listed.updatedAt := by
  intro store
  have perm := orderByDesc_perm TaskRow.updatedAt store.tasks.values
  obtain ⟨rest, split, newest⟩ := limit_orderByDesc TaskRow.updatedAt n store.tasks.values
  refine ⟨?_, ?_, ?_, ?_⟩
  · rw [SQLiteStore.recentTasks, List.length_map, limit_length, perm.length_eq, Dict.values, Dict.keys, List.length_map,
      List.length_map]
  · rw [SQLiteStore.recentTasks, List.pairwise_map]
    obtain ⟨others, whole⟩ := limit_split n (orderByDesc TaskRow.updatedAt store.tasks.values)
    have sorted := orderByDesc_pairwise TaskRow.updatedAt store.tasks.values
    rw [← whole] at sorted
    exact (List.pairwise_append.mp sorted).1
  · intro listed member
    obtain ⟨row, selected, rfl⟩ := List.mem_map.mp member
    obtain ⟨entry, there, rfl⟩ := List.mem_map.mp (split.mem_iff.mp (List.mem_append_left rest selected))
    exact row_lists fine quiet ((store.tasks.mem_entries_iff entry.1 entry.2).mp there)
  · intro id row stored unlisted listed member
    obtain ⟨other, selected, rfl⟩ := List.mem_map.mp member
    have there : row ∈ store.tasks.values := List.mem_map.mpr ⟨(id, row), (store.tasks.mem_entries_iff id row).mpr stored, rfl⟩
    rcases List.mem_append.mp (split.mem_iff.mpr there) with chosen | left
    · exact (unlisted (List.mem_map_of_mem chosen)).elim
    · exact newest other selected row left

theorem recent_tasks_sample :
    ∃ listed ∈ (after {} sampleAttempts).engine.store.recentTasks 1,
      ∃ task, (after {} sampleAttempts).engine.queue.task? listed.taskId = some task ∧ Lists listed task := by
  obtain ⟨length, _, lists, _⟩ := recent_tasks_current {} sampleAttempts (by decide +kernel) (by decide +kernel) 1
  have one : 0 < ((after {} sampleAttempts).engine.store.recentTasks 1).length := by
    rw [length]
    decide +kernel
  obtain ⟨listed, member⟩ := List.exists_mem_of_length_pos one
  exact ⟨listed, member, lists listed member⟩

end System

end TaskRunner
