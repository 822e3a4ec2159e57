import TaskRunner.Scheduler.Outbox

/-!
The tasks table against the tasks in memory: a row that is behind has a write still to come, and a write shows the task
as it is when the write is made.
-/

namespace TaskRunner
open Base InMemoryTaskQueue

/-- The report whose write is still to come. -/
def Frame.reporting : Frame → Option (TaskResult × TaskRef)
  | .noteCompleted result task | .storeReport result task => some (result, task)
  | _ => none

/-- The task whose row the section writes. -/
def Frame.writing : Frame → Option TaskRef
  | .storeTask task | .storeTasks (task :: _) | .storeReport _ task => some task
  | _ => none

namespace System

/-- The event's write of a task, if it makes one, does not raise. -/
def NoStoreError (s : System) : Event → Prop
  | .proceed _ => ∀ task ∈ s.frame.writing, SQLiteStore.Storable (s.engine.queue.objects task)
  | _ => True

instance (s : System) (event : Event) : Decidable (s.NoStoreError event) := by
  cases event <;> unfold NoStoreError <;> infer_instance

theorem NoStoreError.storable {s : System} {clock : Clock} (fine : s.NoStoreError (.proceed clock)) {task : TaskRef}
    (writes : s.frame.writing = some task) : SQLiteStore.Storable (s.engine.queue.objects task) := fine task writes

/-! ### The rows -/

/-- Rows are those of tasks. A task without a write still to come has a row that shows it, unless its submission was
not let in. -/
structure Mirrored (accepted : List String) (s : System) : Prop where
  known : ∀ id ∈ accepted, id ∈ s.engine.queue.tasks
  rows : ∀ id, (s.engine.store.tasks.get? id).isSome → id ∈ s.engine.queue.tasks
  shown : ∀ id task, s.engine.queue.tasks.get? id = some task → s.Owed task ∨
    (∃ row, s.engine.store.tasks.get? id = some row ∧ SQLiteStore.Shows row (s.engine.queue.objects task)) ∨
    (s.engine.store.tasks.get? id = none ∧ id ∉ accepted)

theorem step_known {s : System} (rep : Represented s.engine.queue) (event : Event) {id : String}
    (known : id ∈ s.engine.queue.tasks) : id ∈ (s.step event).engine.queue.tasks := by
  obtain ⟨task, found⟩ := Dict.exists_of_mem known
  exact Dict.mem_of_get? (step_found rep event found)

/-- An event that writes no row leaves every write that is owed to be made. -/
theorem step_mirrored_unwritten {s : System} (rep : Represented s.engine.queue) {accepted : List String}
    (mirrored : Mirrored accepted s) (event : Event)
    (tasks : (s.step event).engine.store.tasks = s.engine.store.tasks)
    (owed : ∀ task, s.Owed task → (s.step event).Owed task) :
    Mirrored (accepted ++ s.accepts event) (s.step event) := by
  refine ⟨fun id member => ?_, fun id row => ?_, fun id task found => ?_⟩
  · rcases List.mem_append.mp member with old | new
    · exact step_known rep event (mirrored.known id old)
    · obtain ⟨task, found, _⟩ := step_born rep new
      exact Dict.mem_of_get? found
  · rw [tasks] at row
    exact step_known rep event (mirrored.rows id row)
  · rw [tasks]
    by_cases new : id ∈ s.accepts event
    · obtain ⟨born, found', first⟩ := step_born rep new
      obtain rfl : born = task := Option.some.inj (found'.symm.trans found)
      exact Or.inl first
    · have unlisted : id ∉ accepted → id ∉ accepted ++ s.accepts event := fun absent member =>
        (List.mem_append.mp member).elim absent new
      cases old : s.engine.queue.tasks.get? id with
      | none =>
        have unknown : id ∉ s.engine.queue.tasks := (Dict.get?_eq_none _ _).mp old
        refine Or.inr (Or.inr ⟨?_, unlisted fun member => unknown (mirrored.known id member)⟩)
        exact Option.not_isSome_iff_eq_none.mp fun row => unknown (mirrored.rows id row)
      | some ref =>
        obtain rfl : ref = task := Option.some.inj ((step_found rep event old).symm.trans found)
        rcases step_changed rep old event with same | changed
        · rw [same]
          rcases mirrored.shown id ref old with pending | shows | absent
          · exact Or.inl (owed ref pending)
          · exact Or.inr (Or.inl shows)
          · exact Or.inr (Or.inr ⟨absent.1, unlisted absent.2⟩)
        · exact Or.inl changed

/-- One write, after which the running coroutine owes the others it owed. -/
structure Wrote (s : System) (task : TaskRef) (t : System) : Prop where
  queue : t.engine.queue = s.engine.queue
  calls : t.calls = s.calls
  reaped : t.reaped = s.reaped
  owes : ∀ other ∈ s.frame.owes, other = task ∨ other ∈ t.frame.owes
  row : ∃ row, t.engine.store.tasks.get? (s.engine.queue.objects task).taskId = some row ∧
    SQLiteStore.Shows row (s.engine.queue.objects task)
  rest : ∀ id, id ≠ (s.engine.queue.objects task).taskId →
    t.engine.store.tasks.get? id = s.engine.store.tasks.get? id

theorem Wrote.mirrored {s t : System} {task : TaskRef} {accepted : List String} (rep : Represented s.engine.queue)
    (sound : s.Sound) (wrote : Wrote s task t) (owed : task ∈ s.frame.owes) (mirrored : Mirrored accepted s) :
    Mirrored accepted t := by
  obtain ⟨name, named⟩ := sound task (Or.inl owed)
  have key : (s.engine.queue.objects task).taskId = name := rep.named name task named
  have kept : ∀ other, s.Owed other → other = task ∨ t.Owed other := by
    intro other pending
    rcases pending with framed | call | reaped
    · exact (wrote.owes other framed).imp_right Or.inl
    · exact Or.inr (Or.inr (Or.inl (by rw [wrote.calls]; exact call)))
    · exact Or.inr (Or.inr (Or.inr (by rw [wrote.reaped]; exact reaped)))
  refine ⟨fun id member => ?_, fun id row => ?_, fun id other found => ?_⟩
  · rw [wrote.queue]
    exact mirrored.known id member
  · rw [wrote.queue]
    by_cases here : id = name
    · rw [here]
      exact Dict.mem_of_get? named
    · rw [wrote.rest id (by rw [key]; exact here)] at row
      exact mirrored.rows id row
  · rw [wrote.queue] at found ⊢
    by_cases same : other = task
    · subst same
      obtain rfl : id = name := (rep.named id other found).symm.trans key
      have row := wrote.row
      rw [key] at row
      exact Or.inr (Or.inl row)
    · have different : id ≠ name := by
        rintro rfl
        exact same (Option.some.inj (found.symm.trans named))
      rw [wrote.rest id (by rw [key]; exact different)]
      rcases mirrored.shown id other found with pending | shows | absent
      · exact Or.inl ((kept other pending).resolve_left same)
      · exact Or.inr (Or.inl shows)
      · exact Or.inr (Or.inr absent)

theorem proceed_owed {s : System} {clock : Clock} (frame : ∀ task ∈ s.frame.owes, task ∈ (s.proceed clock).frame.owes)
    {task : TaskRef} (owed : s.Owed task) : (s.proceed clock).Owed task := by
  rcases owed with framed | call | reaped
  · exact Or.inl (frame task framed)
  · exact Or.inr (Or.inl (by rw [(proceed_calls s clock).1]; exact call))
  · exact Or.inr (Or.inr (by rw [proceed_reaped]; exact reaped))

theorem settle_tasks {s : System} {result : TaskResult} (frame : s.frame = .settleReport result) (clock : Clock) :
    (s.proceed clock).engine.store.tasks = s.engine.store.tasks := by
  simp only [proceed, frame]
  split <;> rename_i settled <;> obtain ⟨queue, rfl⟩ := settleReport_kept settled <;> rfl

theorem proceed_mirrored {s : System} (rep : Represented s.engine.queue) (sound : s.Sound) {accepted : List String}
    (mirrored : Mirrored accepted s) (clock : Clock) (fine : s.NoStoreError (.proceed clock)) :
    Mirrored accepted (s.proceed clock) := by
  have unwritten : (s.proceed clock).engine.store.tasks = s.engine.store.tasks →
      (∀ task ∈ s.frame.owes, task ∈ (s.proceed clock).frame.owes) → Mirrored accepted (s.proceed clock) := by
    intro tasks frame
    have kept := step_mirrored_unwritten rep mirrored (.proceed clock) tasks
      fun task owed => proceed_owed frame owed
    rwa [show s.accepts (.proceed clock) = [] from rfl, List.append_nil] at kept
  cases frame : s.frame with
  | idle =>
    apply unwritten (by simp only [proceed, frame])
    rw [frame]
    intro task owes
    cases owes
  | storeTask task =>
    refine Wrote.mirrored rep sound ?_ (show task ∈ s.frame.owes by rw [frame]; exact List.mem_cons_self) mirrored
    have storable := fine.storable (show s.frame.writing = some task by rw [frame]; rfl)
    simp only [proceed, frame, SchedulerEngine.storeTask_ok s.engine none (clock 0) storable]
    refine ⟨rfl, rfl, rfl, ?_, SQLiteStore.putTask_shows .., fun id different =>
      SQLiteStore.putTask_other _ _ _ _ different⟩
    rw [frame]
    exact fun other owes => Or.inl (List.mem_singleton.mp owes)
  | storeTasks tasks =>
    cases tasks with
    | nil =>
      apply unwritten (by simp only [proceed, frame])
      rw [frame]
      intro task owes
      cases owes
    | cons task rest =>
      refine Wrote.mirrored rep sound ?_ (show task ∈ s.frame.owes by rw [frame]; exact List.mem_cons_self) mirrored
      have storable := fine.storable (show s.frame.writing = some task by rw [frame]; rfl)
      simp only [proceed, frame, SchedulerEngine.storeTask_ok s.engine none (clock 0) storable]
      refine ⟨rfl, rfl, rfl, ?_, SQLiteStore.putTask_shows .., fun id different =>
        SQLiteStore.putTask_other _ _ _ _ different⟩
      rw [frame]
      exact fun other owes => List.mem_cons.mp owes
  | settleReport result =>
    apply unwritten (settle_tasks frame clock)
    rw [frame]
    intro task owes
    cases owes
  | noteCompleted result task =>
    apply unwritten (by simp only [proceed, frame]; rfl)
    rw [frame]
    intro other owes
    simp only [proceed, frame]
    exact owes
  | storeReport result task =>
    refine Wrote.mirrored rep sound ?_ (show task ∈ s.frame.owes by rw [frame]; exact List.mem_cons_self) mirrored
    have storable := fine.storable (show s.frame.writing = some task by rw [frame]; rfl)
    simp only [proceed, frame, SchedulerEngine.storeReport_ok s.engine result clock storable]
    refine ⟨rfl, rfl, rfl, ?_, SQLiteStore.putTask_shows .., fun id different =>
      SQLiteStore.putTask_other _ _ _ _ different⟩
    rw [frame]
    exact fun other owes => Or.inl (List.mem_singleton.mp owes)

theorem step_mirrored {s : System} (rep : Represented s.engine.queue) (wired : Wired s) (sound : s.Sound)
    {accepted : List String} (mirrored : Mirrored accepted s) (event : Event) (fine : s.NoStoreError event) :
    Mirrored (accepted ++ s.accepts event) (s.step event) := by
  by_cases running : ∃ clock, event = .proceed clock
  · obtain ⟨clock, rfl⟩ := running
    rw [show s.accepts (.proceed clock) = [] from rfl, List.append_nil]
    exact proceed_mirrored rep sound mirrored clock fine
  · have other : ∀ clock, event ≠ .proceed clock := fun clock same => running ⟨clock, same⟩
    exact step_mirrored_unwritten rep mirrored event (step_tasks s other) fun task => step_owed rep wired other

theorem after_mirrored {config : Settings} {events : List Event}
    (fine : Machine.Along step NoStoreError (init config) events) :
    Mirrored (accepted config events) (after config events) := by
  let J : List String → System → Prop := fun accepted s =>
    (Represented s.engine.queue ∧ Wired s ∧ s.Sound) ∧ Mirrored accepted s
  have whole : J ([] ++ accepted config events) (after config events) := by
    refine Machine.history_invariant_along (J := J) ?_ ?_ fine
    · intro past s event given fine
      obtain ⟨⟨rep, wired, sound⟩, mirrored⟩ := given
      exact ⟨⟨represented_step rep event, step_wired rep wired event, step_sound rep wired sound event⟩,
        step_mirrored rep wired sound mirrored event fine⟩
    · refine ⟨⟨represented_init _, wired_init config, ?_⟩, ?_, ?_, ?_⟩
      · intro task owed
        rcases owed with framed | ⟨call, c, found, _⟩ | ⟨refs, waiting, _⟩
        · cases framed
        · cases found
        · cases waiting
      · intro id member
        cases member
      · intro id row
        cases row
      · intro id task found
        cases found
  exact whole.2

/-! ### The results -/

/-- The report a section settles, unless it raises because it does not know the task. -/
def reported (s : System) : Event → List TaskResult
  | .proceed _ =>
    match s.frame with
    | .settleReport result => if result.taskId ∈ s.engine.queue.tasks then [result] else []
    | _ => []
  | _ => []

/-- The reports a run has processed, in order. -/
def processed (config : Settings) (events : List Event) : List TaskResult :=
  Machine.collect step reported (init config) events

/-- The last result reported for a task. -/
def lastResult (results : List TaskResult) (taskId : String) : Option TaskResult :=
  (results.filter fun result => result.taskId = taskId).getLast?

theorem lastResult_same (past : List TaskResult) (result : TaskResult) :
    lastResult (past ++ [result]) result.taskId = some result := by
  simp [lastResult]

theorem lastResult_other (past : List TaskResult) {result : TaskResult} {taskId : String}
    (different : result.taskId ≠ taskId) : lastResult (past ++ [result]) taskId = lastResult past taskId := by
  simp [lastResult, different]

/-- The store holds the last result of every task, but for the one the running coroutine is about to write. -/
structure Recounted (past : List TaskResult) (s : System) : Prop where
  pending : ∀ result task, s.frame.reporting = some (result, task) →
    s.engine.queue.tasks.get? result.taskId = some task ∧ lastResult past result.taskId = some result
  stored : ∀ id, (∀ result task, s.frame.reporting = some (result, task) → result.taskId ≠ id) →
    s.engine.store.storedResult id = (lastResult past id).map TaskResult.toDict

theorem storedResult_tasks {store store' : SQLiteStore} (tasks : store'.tasks = store.tasks) (id : String) :
    store'.storedResult id = store.storedResult id := by
  unfold SQLiteStore.storedResult
  rw [tasks]

theorem storeTask_result (e : SchedulerEngine) (task : TaskRef) (now : ℚ) (id : String) :
    (e.storeTask task none now).2.store.storedResult id = e.store.storedResult id := by
  by_cases storable : SQLiteStore.Storable (e.queue.objects task)
  · rw [SchedulerEngine.storeTask_ok e none now storable]
    apply (SQLiteStore.putTask_result ..).trans
    rw [Option.map_none, Option.none_or, ite_self]
  · obtain ⟨error, raised⟩ := SchedulerEngine.storeTask_error e none now storable
    rw [raised]

theorem step_recounted_other {s : System} (rep : Represented s.engine.queue) {past : List TaskResult}
    (recounted : Recounted past s) {event : Event} (other : ∀ clock, event ≠ .proceed clock) :
    Recounted (past ++ s.reported event) (s.step event) := by
  have silent : s.reported event = [] := by
    cases event with
    | proceed clock => exact (other clock rfl).elim
    | _ => rfl
  have frame : (s.step event).frame.reporting = s.frame.reporting := by
    rcases (step_stays s other).frame with same | ⟨free, opened⟩
    · rw [same]
    · rw [frame_of_idle free]
      cases next : (s.step event).frame with
      | noteCompleted | storeReport =>
        rw [next] at opened
        cases opened
      | _ => rfl
  rw [silent, List.append_nil]
  refine ⟨fun result task reporting => ?_, fun id apart => ?_⟩
  · rw [frame] at reporting
    obtain ⟨found, last⟩ := recounted.pending result task reporting
    exact ⟨step_found rep event found, last⟩
  · rw [frame] at apart
    rw [storedResult_tasks (step_tasks s other)]
    exact recounted.stored id apart

/-- A row written without a result keeps the one it has. -/
theorem Recounted.quiet {past : List TaskResult} {s t : System} (recounted : Recounted past s)
    (before : s.frame.reporting = none) (after : t.frame.reporting = none)
    (stored : ∀ id, t.engine.store.storedResult id = s.engine.store.storedResult id) : Recounted past t := by
  refine ⟨fun result task reporting => ?_, fun id _ => ?_⟩
  · rw [after] at reporting
    cases reporting
  · rw [stored]
    apply recounted.stored id
    intro result task reporting
    rw [before] at reporting
    cases reporting

/-- A report that is settled is the last one of its task, and its write comes next. -/
theorem settle_recounted {s : System} (rep : Represented s.engine.queue) {past : List TaskResult}
    (recounted : Recounted past s) {result : TaskResult} (frame : s.frame = .settleReport result) (clock : Clock) :
    Recounted (past ++ s.reported (.proceed clock)) (s.proceed clock) := by
  have before : s.frame.reporting = none := by rw [frame]; rfl
  have tasks := settle_tasks frame clock
  cases found : s.engine.queue.tasks.get? result.taskId with
  | none =>
    have unknown := (Dict.get?_eq_none _ _).mp found
    have emitted : s.reported (.proceed clock) = [] := by simp only [reported, frame, if_neg unknown]
    rw [emitted, List.append_nil]
    refine recounted.quiet before ?_ fun id => storedResult_tasks tasks id
    rw [proceed_unknown rep frame found]
    rfl
  | some ref =>
    have emitted : s.reported (.proceed clock) = [result] := by
      simp only [reported, frame, if_pos (Dict.mem_of_get? found)]
    rw [emitted]
    have reporting : (s.proceed clock).frame.reporting = some (result, ref) := by
      rw [proceed_settle rep frame found]
      split <;> rfl
    refine ⟨fun other task same => ?_, fun id apart => ?_⟩
    · rw [reporting, Option.some.injEq, Prod.mk.injEq] at same
      obtain ⟨rfl, rfl⟩ := same
      exact ⟨step_found rep (.proceed clock) found, lastResult_same past result⟩
    · have different := apart result ref reporting
      rw [storedResult_tasks tasks, lastResult_other past different]
      apply recounted.stored id
      intro other task same
      rw [before] at same
      cases same

/-- The write of a report stores its result. -/
theorem storeReport_recounted {s : System} (rep : Represented s.engine.queue) {past : List TaskResult}
    (recounted : Recounted past s) {result : TaskResult} {task : TaskRef} (frame : s.frame = .storeReport result task)
    (clock : Clock) (fine : s.NoStoreError (.proceed clock)) : Recounted past (s.proceed clock) := by
  have here : s.frame.reporting = some (result, task) := by rw [frame]; rfl
  obtain ⟨found, last⟩ := recounted.pending result task here
  have key := rep.named result.taskId task found
  refine ⟨fun other ref reporting => ?_, fun id _ => ?_⟩
  · simp only [proceed, frame] at reporting
    cases reporting
  · have written : (s.proceed clock).engine.store.storedResult id =
        if id = result.taskId then (some result.toDict).or (s.engine.store.storedResult id)
        else s.engine.store.storedResult id := by
      have storable := fine.storable (show s.frame.writing = some task by rw [frame]; rfl)
      simp only [proceed, frame, SchedulerEngine.storeReport_ok s.engine result clock storable]
      have upserted := SQLiteStore.putTask_result s.engine.store (s.engine.queue.objects task) (some result)
        (clock 0) id
      rw [key] at upserted
      exact upserted
    rw [written]
    by_cases same : id = result.taskId
    · rw [if_pos same, same, last]
      rfl
    · rw [if_neg same]
      apply recounted.stored id
      intro other ref reporting
      rw [here, Option.some.injEq, Prod.mk.injEq] at reporting
      rw [← reporting.1]
      exact Ne.symm same

theorem proceed_recounted {s : System} (rep : Represented s.engine.queue) {past : List TaskResult}
    (recounted : Recounted past s) (clock : Clock) (fine : s.NoStoreError (.proceed clock)) :
    Recounted (past ++ s.reported (.proceed clock)) (s.proceed clock) := by
  have silent : (∀ result, s.frame ≠ .settleReport result) → Recounted past (s.proceed clock) →
      Recounted (past ++ s.reported (.proceed clock)) (s.proceed clock) := by
    intro unsettled kept
    have quiet : s.reported (.proceed clock) = [] := by
      unfold reported
      dsimp only
      split
      · rename_i result frame
        exact (unsettled result frame).elim
      · rfl
    rw [quiet, List.append_nil]
    exact kept
  cases frame : s.frame with
  | idle =>
    refine silent (by rw [frame]; exact fun _ => Frame.noConfusion) (recounted.quiet (by rw [frame]; rfl) ?_ ?_) <;>
      simp only [proceed, frame, implies_true]
    rfl
  | storeTask task =>
    refine silent (by rw [frame]; exact fun _ => Frame.noConfusion) (recounted.quiet (by rw [frame]; rfl) ?_ ?_) <;>
      simp only [proceed, frame]
    · rfl
    · exact storeTask_result s.engine task (clock 0)
  | storeTasks tasks =>
    refine silent (by rw [frame]; exact fun _ => Frame.noConfusion) ?_
    cases tasks with
    | nil =>
      refine recounted.quiet (by rw [frame]; rfl) ?_ ?_ <;> simp only [proceed, frame, implies_true]
      rfl
    | cons task rest =>
      refine recounted.quiet (by rw [frame]; rfl) ?_ ?_ <;> simp only [proceed, frame]
      · split <;> rfl
      · exact storeTask_result s.engine task (clock 0)
  | settleReport result => exact settle_recounted rep recounted frame clock
  | noteCompleted result task =>
    have same : (s.proceed clock).frame.reporting = s.frame.reporting := by
      rw [frame]
      simp only [proceed, frame]
      rfl
    refine silent (by rw [frame]; exact fun _ => Frame.noConfusion) ⟨fun other ref reporting => ?_, fun id apart => ?_⟩
    · obtain ⟨found, last⟩ := recounted.pending other ref (same.symm.trans reporting)
      exact ⟨step_found rep (.proceed clock) found, last⟩
    · rw [same] at apart
      have stored := recounted.stored id apart
      rw [← stored]
      simp only [proceed, frame]
      rfl
  | storeReport result task =>
    refine silent (by rw [frame]; exact fun _ => Frame.noConfusion) ?_
    exact storeReport_recounted rep recounted frame clock fine

theorem after_recounted {config : Settings} {events : List Event}
    (fine : Machine.Along step NoStoreError (init config) events) :
    Recounted (processed config events) (after config events) := by
  let J : List TaskResult → System → Prop := fun past s => Represented s.engine.queue ∧ Recounted past s
  have whole : J ([] ++ processed config events) (after config events) := by
    refine Machine.history_invariant_along (J := J) ?_ ?_ fine
    · intro past s event given fine
      obtain ⟨rep, recounted⟩ := given
      refine ⟨represented_step rep event, ?_⟩
      by_cases running : ∃ clock, event = .proceed clock
      · obtain ⟨clock, rfl⟩ := running
        exact proceed_recounted rep recounted clock fine
      · exact step_recounted_other rep recounted fun clock same => running ⟨clock, same⟩
    · refine ⟨represented_init _, ?_, ?_⟩
      · intro result task reporting
        cases reporting
      · intro id _
        rfl
  exact whole.2

/-- When no write of a task has raised and no operation is in progress, the row of every task that was let in shows its
status, attempts, last error and worker, and holds the last result processed for it. -/
theorem store_mirrors (config : Settings) (events : List Event)
    (fine : Machine.Along step NoStoreError (init config) events) (quiet : Quiescent (after config events)) (id : String)
    (let_in : id ∈ accepted config events) :
    ∃ task row, (after config events).engine.queue.task? id = some task ∧
      (after config events).engine.store.tasks.get? id = some row ∧ SQLiteStore.Shows row task ∧
      row.resultJson = (lastResult (processed config events) id).map TaskResult.toDict := by
  have mirrored := after_mirrored fine
  obtain ⟨free, calls, reaped⟩ := quiet
  have frame := frame_of_idle free
  obtain ⟨ref, found⟩ := Dict.exists_of_mem (mirrored.known id let_in)
  have settled : ¬ (after config events).Owed ref := by
    rintro (framed | ⟨call, c, there, _⟩ | ⟨refs, waiting, _⟩)
    · rw [frame] at framed
      cases framed
    · have member : call ∈ (after config events).calls.keys := Dict.mem_of_get? there
      rw [calls] at member
      cases member
    · rw [reaped] at waiting
      cases waiting
  rcases mirrored.shown id ref found with owed | ⟨row, stored, shows⟩ | ⟨_, refused⟩
  · exact (settled owed).elim
  · refine ⟨_, row, by rw [task?, found]; rfl, stored, shows, ?_⟩
    have result := (after_recounted fine).stored id fun result task reporting => by
      rw [frame] at reporting
      cases reporting
    rw [SQLiteStore.storedResult, stored] at result
    exact result
  · exact (refused let_in).elim

theorem store_mirrors_sample :
    ∃ task row, (after {} (sampleDispatch ++ sampleReport .succeeded 4)).engine.queue.task? "a" = some task ∧
      (after {} (sampleDispatch ++ sampleReport .succeeded 4)).engine.store.tasks.get? "a" = some row ∧
      SQLiteStore.Shows row task ∧
      row.resultJson = (lastResult (processed {} (sampleDispatch ++ sampleReport .succeeded 4)) "a").map
        TaskResult.toDict := by
  exact store_mirrors {} (sampleDispatch ++ sampleReport .succeeded 4) (by decide +kernel) (by decide +kernel) "a"
    (by decide +kernel)

end System

end TaskRunner
