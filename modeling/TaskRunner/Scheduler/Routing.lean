import TaskRunner.Scheduler.Guarantees
import TaskRunner.Scheduler.Passes

/-!
To whom a task is dispatched and what must have happened before. A thread that waits inside `reserve` reads
the worker object and, unless it was empty at first, the completed set as they are at each pass.
-/

namespace TaskRunner
open Base InMemoryTaskQueue

namespace System

/-- The ids whose success an event settles. -/
def settledSuccess (s : System) : Event → List String
  | .proceed _ =>
    match s.frame with
    | .settleReport result => if result.status = .succeeded then [result.taskId] else []
    | _ => []
  | _ => []

/-- The ids of the success reports a run has processed, in order. -/
def successes (config : Settings) (events : List Event) : List String :=
  Machine.collect step settledSuccess (init config) events

/-- What the scheduler holds for completed is among the successes so far. -/
def Accounted (past : List String) (s : System) : Prop :=
  (∀ id ∈ s.engine.completedTasks, id ∈ past) ∧
    ∀ result task, s.frame = .noteCompleted result task → result.taskId ∈ past

theorem proceed_accounted {past : List String} {s : System} (held : Accounted past s) (clock : Clock) :
    Accounted (past ++ s.settledSuccess (.proceed clock)) (s.proceed clock) := by
  constructor
  · intro id completed
    rw [proceed_completed] at completed
    apply List.mem_append_left
    split at completed
    · rename_i result task frame
      rcases Finset.mem_insert.mp completed with same | old
      · rw [same]
        exact held.2 result task frame
      · exact held.1 id old
    · exact held.1 id completed
  · intro result task next
    obtain ⟨frame, succeeded⟩ := proceed_noteCompleted next
    apply List.mem_append_right
    simp only [settledSuccess, frame, succeeded, if_true, List.mem_singleton]

theorem step_accounted {past : List String} {s : System} (held : Accounted past s) (event : Event) :
    Accounted (past ++ s.settledSuccess event) (s.step event) := by
  rcases proceed_or_stays s event with ⟨clock, rfl⟩ | stays
  · exact proceed_accounted held clock
  · constructor
    · intro id completed
      rw [stays.completedTasks] at completed
      exact List.mem_append_left _ (held.1 id completed)
    · intro result task next
      apply List.mem_append_left
      rcases stays.frame with same | ⟨_, opened⟩
      · exact held.2 result task (same.symm.trans next)
      · rw [next] at opened
        cases opened

theorem after_accounted (config : Settings) (events : List Event) :
    Accounted (successes config events) (after config events) := by
  have whole : Accounted ([] ++ successes config events) (after config events) := by
    refine Machine.history_invariant (J := Accounted) (fun _ _ event held => step_accounted held event) ?_ events
    constructor
    · intro id completed
      exact (Finset.notMem_empty id completed).elim
    · intro result task frame
      cases frame
  exact whole

/-- A task that depends on the sample task is asked for once that one succeeded. -/
def sampleDependent : List Event :=
  sampleDispatch ++ sampleReport .succeeded 4 ++
    [.submit { spec := { target := "jobs:run", dependsOn := {"a"} }, taskId := "b", createdAt := 5, availableAt := 5 }
        (fun _ => 5), .proceed (fun _ => 5), .reserveTask "w" 1, .reserveEnters 1 6]

end System

namespace Passing

/-- The task whose entry the scan tests next. -/
def testing (p : Passing) : Option TaskRef :=
  p.pass.bind fun pass => pass.scan.next?.bind fun entry => p.system.engine.queue.tasks.get? entry.taskId

/-- The pass of this call holds the lock. -/
def Holds (call : ℕ) (p : Passing) (_ : Slice) : Prop := p.pass.map Pass.call = some call

def settledSuccess (p : Passing) : Slice → List String
  | .other event => if p.waits event then [] else p.system.settledSuccess event
  | _ => []

/-- The ids of the success reports a run has processed, in order. -/
def successes (config : Settings) (slices : List Slice) : List String :=
  Machine.collect step settledSuccess (init config) slices

theorem step_accounted {past : List String} {p : Passing} (held : System.Accounted past p.system) (slice : Slice) :
    System.Accounted (past ++ p.settledSuccess slice) (p.step slice).system := by
  have kept : ∀ {t : System} {more : List String}, t.engine.completedTasks = p.system.engine.completedTasks →
      t.frame = p.system.frame → System.Accounted (past ++ more) t := by
    intro t more completed frame
    refine ⟨fun id inside => ?_, fun result task framed => ?_⟩
    · rw [completed] at inside
      exact List.mem_append_left _ (held.1 id inside)
    · exact List.mem_append_left _ (held.2 result task (frame.symm.trans framed))
  cases slice with
  | begins call now =>
    simp only [step]
    split <;> exact kept rfl rfl
  | scans =>
    simp only [step]
    split
    · exact kept rfl rfl
    · rename_i pass holds
      unfold scan
      dsimp only
      split <;> exact kept rfl rfl
  | ends now monotonic =>
    simp only [step]
    split
    · exact kept rfl rfl
    · rename_i pass holds
      split
      · have same := System.conclude_engine p.system pass.call pass.asked pass.deadline monotonic
        unfold finish
        exact kept (by rw [(same _).1]) (same _).2
      · exact kept rfl rfl
  | other event =>
    simp only [step, settledSuccess]
    split
    · exact kept rfl rfl
    · exact System.step_accounted held event

theorem after_accounted (config : Settings) (slices : List Slice) :
    System.Accounted (successes config slices) (after config slices).system := by
  have start : System.Accounted [] (init config).system := by
    constructor
    · intro id completed
      exact (Finset.notMem_empty id completed).elim
    · intro result task frame
      cases frame
  have whole : System.Accounted ([] ++ successes config slices) (after config slices).system :=
    Machine.history_invariant (J := fun past (p : Passing) => System.Accounted past p.system)
      (fun _ _ slice held => step_accounted held slice) start slices
  exact whole

/-- The pass of the call, for this worker object, has found the task. -/
structure Chosen (call : ℕ) (worker : WorkerRef) (queues : List String) (labels : Finset String) (task : TaskRef)
    (spec : TaskSpec) (p : Passing) : Prop where
  pass : ∃ pass, p.pass = some pass ∧ pass.call = call ∧ pass.worker = worker ∧
    p.system.engine.queue.Found pass.scan task
  routes : (p.system.engine.workerObjects worker).queues = queues ∧
    (p.system.engine.workerObjects worker).labels = labels
  spec : (p.system.engine.queue.objects task).spec = spec

/-- The slice lets the pass of the call find the task: an entry of it passes the tests. -/
structure Tested (call : ℕ) (worker : WorkerRef) (queues : List String) (labels : Finset String) (task : TaskRef)
    (spec : TaskSpec) (p : Passing) (slice : Slice) : Prop where
  scans : slice = .scans
  pass : ∃ pass, p.pass = some pass ∧ pass.call = call ∧ pass.worker = worker ∧
    p.system.engine.queue.Passes (p.system.engine.workerObjects worker) (p.system.completedFor pass.shared) pass.scan task
  routes : (p.system.engine.workerObjects worker).queues = queues ∧
    (p.system.engine.workerObjects worker).labels = labels
  spec : (p.system.engine.queue.objects task).spec = spec

/-- What a pass has found it has tested, in this slice or earlier. -/
theorem step_chosen {p : Passing} (sound : Sound p) (slice : Slice) {call : ℕ} {worker : WorkerRef} {queues : List String}
    {labels : Finset String} {task : TaskRef} {spec : TaskSpec}
    (chosen : Chosen call worker queues labels task spec (p.step slice)) :
    Tested call worker queues labels task spec p slice ∨
      Chosen call worker queues labels task spec p ∧ Holds call p slice := by
  have steps := step_steps p slice
  obtain ⟨t, reached⟩ : ∃ t, t = p.step slice := ⟨_, rfl⟩
  rw [← reached] at steps chosen
  obtain ⟨⟨pass', holds', sameCall, sameWorker, found⟩, ⟨queues', labels'⟩, spec'⟩ := chosen
  have before : ∀ pass, p.pass = some pass → pass.call = call → Holds call p slice := by
    intro pass holds same
    rw [Holds, holds, Option.map_some, same]
  cases steps with
  | stays =>
    exact Or.inr ⟨⟨⟨pass', holds', sameCall, sameWorker, found⟩, ⟨queues', labels'⟩, spec'⟩, before pass' holds' sameCall⟩
  | begins free waiting same scan =>
    obtain rfl := Option.some.inj holds'
    obtain ⟨item, member, _⟩ := found
    rw [scan] at member
    cases member
  | @scans pass holds =>
    obtain ⟨outcome, ready, result, rep, kept⟩ := scanStep_spec sound.represented
      (p.system.engine.workerObjects pass.worker) (p.system.completedFor pass.shared) (sound.spread pass holds)
    unfold scan at holds' found queues' labels' spec'
    dsimp only at holds' found queues' labels' spec'
    rw [result] at holds' found queues' labels' spec'
    cases outcome with
    | error e => cases holds'
    | ok scan' =>
      obtain rfl := Option.some.inj holds'
      obtain rfl := sameWorker
      rcases (kept scan' rfl).2 task found with old | passes
      · exact Or.inr ⟨⟨⟨pass, holds, sameCall, rfl, old⟩, ⟨queues', labels'⟩, spec'⟩, before pass holds sameCall⟩
      · exact Or.inl ⟨rfl, ⟨pass, holds, sameCall, rfl, passes⟩, ⟨queues', labels'⟩, spec'⟩
  | ends => cases holds'
  | @other event foreign unlocked =>
    have silent := unlocked pass' holds'
    have queue := System.unlocked_queue silent
    have old := sound.wired.workers pass'.call pass'.asked (sound.asked pass' holds')
    obtain ⟨keptQueues, keptLabels⟩ := (System.step_registry p.system event).routes pass'.worker old
    rw [sameWorker] at keptQueues keptLabels
    change (p.system.step event).engine.queue.Found pass'.scan task at found
    change ((p.system.step event).engine.queue.objects task).spec = spec at spec'
    rw [queue] at found spec'
    refine Or.inr ⟨⟨⟨pass', holds', sameCall, sameWorker, found⟩, ⟨?_, ?_⟩, spec'⟩, before pass' holds' sameCall⟩
    · exact keptQueues.symm.trans queues'
    · exact keptLabels.symm.trans labels'

theorem dispatched_found {p : Passing} (sound : Sound p) {slice : Slice} {task : TaskRef}
    (dispatched : p.dispatched slice = some task) :
    ∃ pass, p.pass = some pass ∧ p.system.engine.queue.Found pass.scan task := by
  unfold Passing.dispatched at dispatched
  cases slice with
  | ends now monotonic =>
    dsimp only at dispatched
    split at dispatched
    · cases dispatched
    · rename_i pass holds
      split at dispatched
      · rename_i candidates scanned
        obtain ⟨outcome, ready, result, _, known⟩ := takeBest_spec sound.represented candidates
        rw [result] at dispatched
        cases outcome with
        | error e => cases dispatched
        | ok taken =>
          refine ⟨pass, holds, ?_⟩
          rw [Found, scanned]
          exact known task (congrArg _ dispatched)
      · cases dispatched
  | _ => cases dispatched

/-- Whenever a task is dispatched, the worker object of the call serves its queue and shares a label with it or needs
none. The pass has tested the task before, and has not given up the lock since: at that moment the worker was idle or
busy, and the success of every dependency had been processed. -/
theorem dispatch_routed (config : Settings) (slices : List Slice) (slice : Slice) (task : TaskRef)
    (dispatched : (after config slices).dispatched slice = some task) :
    ∃ call c, (after config slices).system.calls.get? call = some c ∧
      ((after config slices).system.engine.queue.objects task).spec.queue ∈
        ((after config slices).system.engine.workerObjects c.worker).queues ∧
      (((after config slices).system.engine.queue.objects task).spec.affinity = ∅ ∨
        ∃ label ∈ ((after config slices).system.engine.queue.objects task).spec.affinity,
          label ∈ ((after config slices).system.engine.workerObjects c.worker).labels) ∧
      ∃ before later, slices = before ++ .scans :: later ∧ (after config before).testing = some task ∧
        Machine.Along step (Holds call) (after config before) (.scans :: later) ∧
        Holds call (after config slices) slice ∧
        (((after config before).system.engine.workerObjects c.worker).status = .idle ∨
          ((after config before).system.engine.workerObjects c.worker).status = .busy) ∧
        ∀ dependency ∈ ((after config slices).system.engine.queue.objects task).spec.dependsOn,
          dependency ∈ successes config before := by
  have sound := after_sound config slices
  obtain ⟨pass, holds, found⟩ := dispatched_found sound dispatched
  obtain ⟨before, first, later, split, tested, since⟩ :=
    Machine.run_since (I := Sound)
      (P := Chosen pass.call pass.worker ((after config slices).system.engine.workerObjects pass.worker).queues
        ((after config slices).system.engine.workerObjects pass.worker).labels task
        ((after config slices).system.engine.queue.objects task).spec)
      (B := Tested pass.call pass.worker ((after config slices).system.engine.workerObjects pass.worker).queues
        ((after config slices).system.engine.workerObjects pass.worker).labels task
        ((after config slices).system.engine.queue.objects task).spec)
      (K := Holds pass.call) (fun _ slice sound => step_sound sound slice)
      (fun _ slice sound chosen => step_chosen sound slice chosen) (sound_init config)
      (fun chosen => by obtain ⟨_, none, _⟩ := chosen.pass; cases none) slices
      ⟨⟨pass, holds, rfl, rfl, found⟩, ⟨rfl, rfl⟩, rfl⟩
  obtain ⟨rfl, ⟨tester, holder, sameCall, _, passes⟩, ⟨queues, labels⟩, spec⟩ := tested
  obtain ⟨entry, next, known, accepts, dependencies⟩ := passes
  obtain ⟨queue, affinity, status⟩ := WorkerInfo.accepts_iff.mp accepts
  change (after config before).pass = some tester at holder
  rw [Machine.run_append] at since
  rw [spec, queues] at queue
  rw [spec, labels] at affinity
  rw [spec] at dependencies
  refine ⟨pass.call, pass.asked, sound.asked pass holds, queue, affinity, before, later, split, ?_, ⟨?_, since⟩, ?_,
    status, ?_⟩
  · rw [testing, holder, Option.bind_some, next, Option.bind_some]
    exact known
  · rw [Holds, holder, Option.map_some, sameCall]
  · rw [Holds, holds, Option.map_some]
  · intro dependency needed
    have completed := dependencies needed
    unfold System.completedFor at completed
    split at completed
    · exact (after_accounted config before).1 dependency completed
    · exact (Finset.notMem_empty dependency completed).elim

/-- A pass over one heap with one entry. -/
def samplePass (call : ℕ) (now : ℚ) : List Slice := [.begins call now, .scans, .scans, .scans, .ends now now]

/-- The task that depends on the sample task is tested once that one succeeded. -/
def sampleTested : List Slice :=
  (System.sampleDependent.take 5).map .other ++ samplePass 0 2 ++ (System.sampleDependent.drop 6).map .other ++
    (samplePass 1 7).take 4

theorem dispatch_routed_sample :
    ((after {} sampleTested).system.engine.queue.objects 1).spec.dependsOn = {"a"} ∧
      ∃ before later, sampleTested = before ++ .scans :: later ∧ (after {} before).testing = some 1 ∧
        "a" ∈ successes {} before := by
  obtain ⟨_, _, _, _, _, before, later, split, testing, _, _, _, dependencies⟩ :=
    dispatch_routed {} sampleTested (.ends 7 7) 1 (by decide +kernel)
  have needs : ((after {} sampleTested).system.engine.queue.objects 1).spec.dependsOn = {"a"} := by decide +kernel
  exact ⟨needs, before, later, split, testing, dependencies "a" (by rw [needs]; exact Finset.mem_singleton_self "a")⟩

/-- The heartbeat of a worker runs out between the test of a task and its dispatch. -/
def sampleLapse : List Slice :=
  [.other (.registerWorker (sampleWorker "w") 0), .other (.submit (sampleTask "a") fun _ => 9),
    .other (.proceed fun _ => 9), .other (.reserveTask "w" 2), .other (.reserveEnters 0 9), .begins 0 10, .scans, .scans,
    .other (.heartbeatReaper fun _ => 11), .scans]

theorem dispatch_routed_fails :
    (after {} sampleLapse).dispatched (.ends 11 11) = some 0 ∧
      ((after {} sampleLapse).system.calls.get? 0).map ReserveCall.worker = some 0 ∧
      ((after {} sampleLapse).system.engine.workerObjects 0).status = .offline := by
  decide +kernel

end Passing

end TaskRunner
