import TaskRunner.Scheduler.Broadcasts
import TaskRunner.Scheduler.Completion
import TaskRunner.Scheduler.Provenance

/-!
The dispatches of the queue against those that are published: a ledger of the calls that have returned a task and were
not answered yet, and the order of a task's first two events.
-/

namespace TaskRunner
open Base InMemoryTaskQueue

namespace Broadcaster

/-! ### The ledger -/

/-- The dispatch that a call has returned. -/
def returning (s : System) (call : ℕ × ReserveCall) : List (String × String) :=
  match call.2.phase with
  | .returned (some task) => [((s.engine.queue.objects task).taskId, (s.engine.workerObjects call.2.worker).workerId)]
  | _ => []

/-- The dispatches of the calls that were not answered yet. -/
def unanswered (s : System) : List (String × String) := s.calls.entries.flatMap (returning s)

/-- The dispatch a pass makes: the task it hands out and the worker whose call it is. -/
def dispatches (s : System) (event : Event) : List (String × String) :=
  match event with
  | .reservePass call _ _ =>
    match s.calls.get? call, s.dispatched event with
    | some c, some id => [(id, (s.engine.workerObjects c.worker).workerId)]
    | _, _ => []
  | _ => []

/-- The dispatch a call is answered with. -/
def answered (s : System) (event : Event) : List (String × String) :=
  ((announces s event).bind Announcement.dispatch).toList

/-- The calls of `reserve_task` are begun, passed and answered by events of their own. -/
def reserving : Event → Bool
  | .reserveTask .. | .reserveEnters .. | .reservePass .. | .reserveReturns _ => true
  | _ => false

theorem calls_kept (s : System) {event : Event} (other : reserving event = false) : (s.step event).calls = s.calls := by
  have steps := System.step_steps s event
  generalize s.step event = t at steps
  cases steps with
  | submit | cancelTask | retryTask => exact (System.resume_calls ..).1
  | proceed => exact (System.proceed_calls s _).1
  | reserveTask | reserveEnters | reservePass | returnsNone | returnsTask => cases other
  | _ => rfl

theorem answered_other (s : System) {event : Event} (other : ∀ call, event ≠ .reserveReturns call) :
    answered s event = [] := by
  have silent : ∀ (option : Option TaskEnvelope) (f : TaskEnvelope → Announcement), (∀ task, (f task).dispatch = none) →
      ((option.map f).bind Announcement.dispatch).toList = [] := by
    intro option f untold
    cases option <;> simp [untold]
  unfold answered
  cases event with
  | submit | cancelTask => exact silent _ _ fun _ => rfl
  | reserveReturns call => exact (other call rfl).elim
  | submitBatch | registerWorker =>
    simp only [announces]
    split
    · first | rfl | (split <;> rfl)
    · rfl
  | heartbeat workerId =>
    simp only [announces]
    split
    · cases s.engine.workers.get? workerId <;> rfl
    · rfl
  | proceed =>
    simp only [announces]
    cases s.frame <;> rfl
  | _ => rfl

/-- A call is answered with what it has returned. -/
theorem answered_returned {s : System} (free : s.idle = true) {call : ℕ} {worker : WorkerRef} {timeout : ℚ}
    {task : Option TaskRef} (found : s.calls.get? call = some { worker, timeout, phase := .returned task }) :
    answered s (.reserveReturns call) = returning s (call, { worker, timeout, phase := .returned task }) := by
  simp only [answered, announces, found, Option.bind_some, storing, free, if_true, System.step, System.whenIdle]
  cases task with
  | none =>
    simp only [System.frame_of_idle free]
    rfl
  | some task => rfl

/-- A dispatch that a call has returned goes by the same names after a step. -/
theorem returning_kept {s : System} (rep : Represented s.engine.queue) (wired : System.Wired s) (event : Event)
    {call : ℕ} {c : ReserveCall} (found : s.calls.get? call = some c) :
    returning (s.step event) (call, c) = returning s (call, c) := by
  unfold returning
  cases phase : c.phase with
  | returned task =>
    cases task with
    | none => rfl
    | some task =>
      obtain ⟨id, named⟩ := wired.returned call c task found phase
      have before := rep.named id task named
      have after := (System.represented_step rep event).named id task (System.step_found rep event named)
      have worker := (System.step_registry s event).names c.worker (wired.workers call c found)
      dsimp only
      rw [before, after, worker]
  | scheduled => rfl
  | waiting => rfl

/-- The calls of before have the same dispatches to answer with. -/
theorem unanswered_kept {s : System} (rep : Represented s.engine.queue) (wired : System.Wired s) (event : Event) :
    s.calls.entries.flatMap (returning (s.step event)) = unanswered s := by
  apply List.flatMap_congr
  intro entry member
  exact returning_kept rep wired event ((s.calls.mem_entries_iff entry.1 entry.2).mp member)

section Step

variable {s : System} (rep : Represented s.engine.queue) (wired : System.Wired s)
include rep wired

/-- A call that had returned nothing yet takes a new phase. -/
theorem unanswered_set {event : Event} {call : ℕ} {c' : ReserveCall}
    (nothing : ∀ c, s.calls.get? call = some c → returning s (call, c) = [])
    (calls : (s.step event).calls = s.calls.set call c') :
    (unanswered (s.step event)).Perm (returning (s.step event) (call, c') ++ unanswered s) := by
  have moved := s.calls.flatMap_set_perm (returning (s.step event)) call c'
  rw [← calls, unanswered_kept rep wired event] at moved
  have before : ((s.calls.get? call).map fun old => returning (s.step event) (call, old)).getD [] = [] := by
    cases found : s.calls.get? call with
    | none => rfl
    | some c =>
      rw [Option.map_some, Option.getD_some, returning_kept rep wired event found]
      exact nothing c found
  rw [before, List.append_nil] at moved
  exact moved

/-- A pass that hands out a task adds its dispatch to what is to be answered. -/
theorem pass_dispatches (call : ℕ) (clock : Clock) (monotonic : ℚ) :
    (unanswered s ++ dispatches s (.reservePass call clock monotonic)).Perm
      (unanswered (s.step (.reservePass call clock monotonic))) := by
  have steps := System.step_steps s (.reservePass call clock monotonic)
  obtain ⟨t, reached⟩ : ∃ t, t = s.step (.reservePass call clock monotonic) := ⟨_, rfl⟩
  rw [← reached] at steps
  cases steps with
  | stays silent =>
    have none : dispatches s (.reservePass call clock monotonic) = [] := by
      simp only [dispatches, System.dispatched, silent, Option.bind_none]
      cases s.calls.get? call <;> rfl
    rw [none, List.append_nil, ← reached]
  | @reservePass _ _ _ worker timeout shared deadline found =>
    have made : s.queueCall (.reservePass call clock monotonic) = some (.reserve (s.engine.workerObjects worker)
        (s.completedFor shared) s.engine.config.leaseSeconds clock) := by
      simp only [System.queueCall, found]
    have nothing : ∀ c, s.calls.get? call = some c → returning s (call, c) = [] := by
      intro c there
      obtain rfl := Option.some.inj (found.symm.trans there)
      rfl
    obtain ⟨_, ⟨phase, calls, stays, unhanded⟩ | ⟨task, id, calls, known, handed⟩⟩ := System.passCall_calls rep call
      { worker, timeout, phase := .waiting shared deadline } shared deadline clock monotonic
    · rw [reached] at calls
      have moved := unanswered_set rep wired nothing calls
      have empty : ∀ u, returning u (call, { worker, timeout, phase }) = [] := by
        intro u
        rcases stays with rfl | rfl <;> rfl
      have none : dispatches s (.reservePass call clock monotonic) = [] := by
        simp only [dispatches, System.dispatched, found, made, Option.bind_some, unhanded]
      rw [empty, List.nil_append] at moved
      rw [none, List.append_nil]
      exact moved.symm
    · rw [reached] at calls
      have moved := unanswered_set rep wired nothing calls
      have one : dispatches s (.reservePass call clock monotonic) = [(id, (s.engine.workerObjects worker).workerId)] := by
        simp only [dispatches, System.dispatched, found, made, Option.bind_some, handed]
      have named := (System.represented_step rep (.reservePass call clock monotonic)).named id task
        (System.step_found rep _ known)
      have same := (System.step_registry s (.reservePass call clock monotonic)).names worker (wired.workers call _ found)
      have told : returning (s.step (.reservePass call clock monotonic))
          (call, { worker, timeout, phase := .returned (some task) }) =
          [(id, (s.engine.workerObjects worker).workerId)] := by
        simp only [returning, named, same]
      rw [told] at moved
      rw [one]
      exact List.perm_append_comm.trans moved.symm

/-- A call that begins or enters `reserve` has returned nothing. -/
theorem entering_dispatches {event : Event} (enters : (∃ workerId timeout, event = .reserveTask workerId timeout) ∨
    ∃ call monotonic, event = .reserveEnters call monotonic) :
    (unanswered s).Perm (unanswered (s.step event)) := by
  have steps := System.step_steps s event
  obtain ⟨t, reached⟩ : ∃ t, t = s.step event := ⟨_, rfl⟩
  rw [← reached] at steps
  cases steps with
  | stays silent => rw [← reached]
  | @reserveTask workerId timeout worker free reservable =>
    have nothing : ∀ c, s.calls.get? s.nextCall = some c → returning s (s.nextCall, c) = [] :=
      fun c there => (Nat.lt_irrefl _ (wired.fresh _ c there)).elim
    exact (unanswered_set rep wired nothing (congrArg System.calls reached).symm).symm
  | @reserveEnters call monotonic worker timeout found =>
    have nothing : ∀ c, s.calls.get? call = some c → returning s (call, c) = [] := by
      intro c there
      obtain rfl := Option.some.inj (found.symm.trans there)
      rfl
    exact (unanswered_set rep wired nothing (congrArg System.calls reached).symm).symm
  | _ => rcases enters with ⟨_, _, same⟩ | ⟨_, _, same⟩ <;> cases same

/-- A call that is answered takes its dispatch along. -/
theorem answer_dispatches (call : ℕ) :
    (unanswered s).Perm (answered s (.reserveReturns call) ++ unanswered (s.step (.reserveReturns call))) := by
  have steps := System.step_steps s (.reserveReturns call)
  obtain ⟨t, reached⟩ : ∃ t, t = s.step (.reserveReturns call) := ⟨_, rfl⟩
  rw [← reached] at steps
  have ended : ∀ c, s.calls.get? call = some c → t.calls = s.calls.erase call →
      (unanswered s).Perm (returning s (call, c) ++ unanswered t) := by
    intro c found calls
    have erased := s.calls.flatMap_erase_perm (returning t) found
    rw [← calls, reached, returning_kept rep wired _ found, unanswered_kept rep wired] at erased
    rw [reached]
    exact erased
  cases steps with
  | stays =>
    have idle : storing s (.reserveReturns call) = none := by
      unfold storing
      split
      · rename_i free
        rw [← reached, System.frame_of_idle free]
      · rfl
    have silent : answered s (.reserveReturns call) = [] := by
      simp only [answered, announces, idle]
      cases s.calls.get? call <;> rfl
    rw [silent, ← reached]
    exact List.Perm.refl _
  | returnsNone free found | returnsTask free found =>
    rw [answered_returned free found, ← reached]
    exact ended _ found rfl

/-- What the queue hands out waits for its call to be answered. -/
theorem step_dispatches (event : Event) :
    (unanswered s ++ dispatches s event).Perm (answered s event ++ unanswered (s.step event)) := by
  cases event with
  | reservePass call clock monotonic =>
    rw [answered_other s fun _ same => by cases same]
    exact pass_dispatches rep wired call clock monotonic
  | reserveTask workerId timeout =>
    rw [answered_other s fun _ same => by cases same]
    show (unanswered s ++ []).Perm _
    rw [List.append_nil]
    exact entering_dispatches rep wired (Or.inl ⟨_, _, rfl⟩)
  | reserveEnters call monotonic =>
    rw [answered_other s fun _ same => by cases same]
    show (unanswered s ++ []).Perm _
    rw [List.append_nil]
    exact entering_dispatches rep wired (Or.inr ⟨_, _, rfl⟩)
  | reserveReturns call =>
    show (unanswered s ++ []).Perm _
    rw [List.append_nil]
    exact answer_dispatches rep wired call
  | _ =>
    rw [answered_other s fun _ same => by cases same]
    show (unanswered s ++ []).Perm _
    rw [List.append_nil, List.nil_append, unanswered, unanswered, calls_kept s rfl]
    exact List.Perm.of_eq (unanswered_kept rep wired _).symm

end Step

/-- The dispatches the queue has made in a run. -/
def dispatchesOf (config : Settings) (events : List Event) : List (String × String) :=
  Machine.collect System.step dispatches (System.init config) events

/-- The dispatches made and not yet published. -/
def outstanding (b : Broadcaster) : List (String × String) :=
  (b.announcing.bind Announcement.dispatch).toList ++ unanswered b.system

/-- Each dispatch of the queue is published once, with its task and its worker, unless its call was not answered yet
or its announcement waits; nothing else is published as dispatched, and at rest nothing is outstanding. -/
theorem dispatches_published (config : Settings) (turns : List Turn) :
    (dispatchesOf config (eventsOf config turns)).Perm
        ((published config turns).filterMap ClusterEvent.dispatch ++ (after config turns).outstanding) ∧
      ((after config turns).free = true → (after config turns).system.calls.keys = [] →
        (after config turns).outstanding = []) := by
  constructor
  · have ledger : (unanswered (System.init config) ++ dispatchesOf config (eventsOf config turns)).Perm
        (Machine.collect System.step answered (System.init config) (eventsOf config turns) ++
          unanswered (System.after config (eventsOf config turns))) :=
      Machine.run_conserves_perm (I := System.Consistent) (fun _ event given => System.step_consistent given event)
        (fun _ event given => step_dispatches given.represented given.wired event) (System.consistent_init config) _
    have told : Machine.collect System.step answered (System.init config) (eventsOf config turns) =
        (published config turns).filterMap ClusterEvent.dispatch ++
          ((after config turns).announcing.bind Announcement.dispatch).toList := by
      rw [published_filterMap event_dispatch, ← announced_eq, begins_collect Announcement.dispatch fun _ => rfl]
      rfl
    rw [told, List.append_assoc] at ledger
    rw [outstanding, after_system]
    exact ledger
  · intro free calls
    obtain ⟨_, waits⟩ := Bool.and_eq_true_iff.mp free
    have none : (after config turns).system.calls.entries = [] := List.map_eq_nil_iff.mp calls
    rw [outstanding, unanswered, none, Option.isNone_iff_eq_none.mp waits]
    rfl

/-! ### The first event of a task -/

/-- The task an announcement names. -/
def Announcement.subject : Announcement → Option String
  | .taskSubmitted taskId _ | .taskDispatched taskId _ _ | .taskCancelled taskId => some taskId
  | .reported result _ => some result.taskId
  | _ => none

/-- The task whose submission is announced. -/
def Announcement.submission : Announcement → Option String
  | .taskSubmitted taskId _ => some taskId
  | _ => none

/-- The task whose submission an event tells. -/
def ClusterEvent.submission (event : ClusterEvent) : Option String :=
  match event.eventType with
  | .taskSubmitted => event.text "task_id"
  | _ => none

theorem event_submission (s : System) (announcement : Announcement) :
    (announcement.event s).submission = announcement.submission := by
  cases announcement with
  | reported result task =>
    simp only [Announcement.event, ClusterEvent.submission]
    split
    · rename_i submitted
      split at submitted <;> cases submitted
    · rfl
  | _ => rfl

/-- The ids that come in a batch, which is announced by its size alone. -/
def batched : Event → List String
  | .submitBatch tasks _ => tasks.map Submission.taskId
  | _ => []

theorem submitMany_known {q : InMemoryTaskQueue} (rep : Represented q) (batch : List Submission)
    (new : ∀ task ∈ batch, task.taskId ∉ q.tasks) (distinct : (batch.map Submission.taskId).Nodup) (clock : Clock)
    {id : String} (known : id ∈ (q.submitMany (batch.map Submission.envelope) clock).2.tasks) :
    id ∈ q.tasks ∨ id ∈ batch.map Submission.taskId := by
  induction batch generalizing q clock with
  | nil => exact Or.inl known
  | cons task rest ih =>
    rw [List.map_cons] at known
    rcases submit_spec rep task (new task List.mem_cons_self) clock with ⟨_, result⟩ | ⟨r, result, submitted⟩
    · rw [submitMany, result] at known
      exact Or.inl known
    · rw [submitMany_cons result] at known
      have fresh := fresh_of_registered submitted.tasks new distinct
      rcases ih submitted.represented fresh (List.nodup_cons.mp distinct).2 (clock.later 2) known with old | later
      · rw [submitted.tasks, Dict.mem_set] at old
        rcases old with rfl | old
        · exact Or.inr List.mem_cons_self
        · exact Or.inl old
      · exact Or.inr (List.mem_cons_of_mem _ later)

/-- A task that a step makes known came in a batch, or its submission is going to be announced. -/
theorem step_introduces {s : System} (rep : Represented s.engine.queue) (event : Event) {id : String}
    (known : id ∈ (s.step event).engine.queue.tasks) :
    id ∈ s.engine.queue.tasks ∨ id ∈ batched event ∨ ∃ queue, announces s event = some (.taskSubmitted id queue) := by
  have steps := System.step_steps s event
  obtain ⟨t, reached⟩ : ∃ t, t = s.step event := ⟨_, rfl⟩
  rw [← reached] at steps known
  cases steps with
  | stays => exact Or.inl known
  | @submit task clock new free =>
    rcases submit_spec rep task new clock with ⟨_, result⟩ | ⟨r, result, submitted⟩
    · rw [result] at known
      exact Or.inl known
    · rw [result] at known
      change id ∈ r.tasks at known
      rw [submitted.tasks, Dict.mem_set] at known
      rcases known with rfl | old
      · refine Or.inr (Or.inr ⟨(r.objects s.engine.queue.allocated).spec.queue, ?_⟩)
        have named := submitted.represented.named task.taskId s.engine.queue.allocated
          (by rw [submitted.tasks, Dict.get?_set_self])
        simp only [announces, storing, free, if_true, ← reached, result, System.resume, Option.map_some, named]
      · exact Or.inl old
  | @batchRefused tasks clock error queue new free result =>
    have same : queue = (s.engine.queue.submitMany (tasks.map Submission.envelope) clock).2 := by rw [result]
    change id ∈ queue.tasks at known
    rw [same] at known
    exact (submitMany_known rep tasks new.1 new.2 clock known).imp_right Or.inl
  | @submitBatch tasks clock refs queue new free result =>
    have same : queue = (s.engine.queue.submitMany (tasks.map Submission.envelope) clock).2 := by rw [result]
    change id ∈ queue.tasks at known
    rw [same] at known
    exact (submitMany_known rep tasks new.1 new.2 clock known).imp_right Or.inl
  | _ =>
    left
    rw [reached, System.tasks_kept rep (fun _ _ same => by cases same) fun _ _ same => by cases same] at known
    exact known

theorem after_introduced (config : Settings) (events : List Event) {id : String}
    (known : id ∈ (System.after config events).engine.queue.tasks) :
    id ∈ events.flatMap batched ∨
      id ∈ Machine.collect System.step (fun s event => ((announces s event).bind Announcement.submission).toList)
        (System.init config) events := by
  induction events using List.reverseRecOn with
  | nil => cases known
  | append_singleton events event ih =>
    rw [System.after_snoc] at known
    rw [List.flatMap_append, List.mem_append, Machine.collect_append, List.mem_append]
    rcases step_introduces (System.after_represented config events) event known with old | batch | ⟨queue, begins⟩
    · exact (ih old).imp Or.inl Or.inl
    · left
      right
      rw [List.flatMap_singleton]
      exact batch
    · right
      right
      have here : announces (Machine.run System.step (System.init config) events) event =
          some (.taskSubmitted id queue) := begins
      simp [Machine.collect, here, Announcement.submission]

/-! ### What announcements are about -/

theorem storing_known {s : System} (rep : Represented s.engine.queue) (wired : System.Wired s) (sound : s.Sound)
    {event : Event} {task : TaskEnvelope} (stores : storing s event = some task) :
    task.taskId ∈ (s.step event).engine.queue.tasks := by
  unfold storing at stores
  split at stores
  · split at stores
    · rename_i ref frame
      obtain rfl := Option.some.inj stores
      have owed : (s.step event).Owed ref := Or.inl (by rw [frame]; exact List.mem_cons_self)
      obtain ⟨id, found⟩ := System.step_sound rep wired sound event ref owed
      rw [(System.represented_step rep event).named id ref found]
      exact Dict.mem_of_get? found
    · cases stores
  · cases stores

theorem announces_known {s : System} (rep : Represented s.engine.queue) (wired : System.Wired s) (sound : s.Sound)
    (reporting : ∀ result task, s.frame.reporting = some (result, task) → result.taskId ∈ s.engine.queue.tasks)
    {event : Event} {announcement : Announcement} (announces : announces s event = some announcement) {id : String}
    (named : announcement.subject = some id) : id ∈ (s.step event).engine.queue.tasks := by
  cases event with
  | submit =>
    obtain ⟨task, stores, rfl⟩ := Option.map_eq_some_iff.mp announces
    obtain rfl := Option.some.inj named
    exact storing_known rep wired sound stores
  | reserveReturns call =>
    obtain ⟨c, _, announces⟩ := Option.bind_eq_some_iff.mp announces
    obtain ⟨task, stores, rfl⟩ := Option.map_eq_some_iff.mp announces
    obtain rfl := Option.some.inj named
    exact storing_known rep wired sound stores
  | cancelTask taskId =>
    obtain ⟨task, stores, rfl⟩ := Option.map_eq_some_iff.mp announces
    obtain rfl := Option.some.inj named
    apply System.step_known rep
    by_contra unknown
    have refused := cancel_unknown ((Dict.get?_eq_none _ _).mpr unknown)
    have idle := storing_idle stores
    simp only [storing, System.step, System.whenIdle, idle, if_true, System.resume, refused] at stores
    cases stores
  | submitBatch | registerWorker =>
    simp only [Broadcaster.announces] at announces
    split at announces
    · first | cases announces; cases named | (split at announces <;> cases announces; cases named)
    · cases announces
  | heartbeat workerId =>
    simp only [Broadcaster.announces] at announces
    split at announces
    · obtain ⟨_, _, rfl⟩ := Option.map_eq_some_iff.mp announces
      cases named
    · cases announces
  | proceed clock =>
    simp only [Broadcaster.announces] at announces
    split at announces
    · rename_i result task frame
      obtain rfl := Option.some.inj announces
      obtain rfl := Option.some.inj named
      exact System.step_known rep _ (reporting result task (by rw [frame]; rfl))
    · cases announces
  | _ => cases announces

/-- A turn forgets no task. -/
theorem step_known {b : Broadcaster} (rep : Represented b.system.engine.queue) (turn : Turn) {id : String}
    (known : id ∈ b.system.engine.queue.tasks) : id ∈ (b.step turn).system.engine.queue.tasks := by
  have kept : Represented (b.step turn).system.engine.queue ∧ id ∈ (b.step turn).system.engine.queue.tasks :=
    Machine.run_invariant (I := fun s : System => Represented s.engine.queue ∧ id ∈ s.engine.queue.tasks)
      (fun s event given => ⟨System.represented_step given.1 event, System.step_known given.1 event given.2⟩)
      ⟨rep, known⟩ (b.systemEvents turn)
  exact kept.2

theorem after_snoc (config : Settings) (turns : List Turn) (turn : Turn) :
    after config (turns ++ [turn]) = (after config turns).step turn := Machine.run_append _ _ _

/-- What waits to be announced is about a task that is known. -/
theorem announcing_known (config : Settings) (turns : List Turn) {announcement : Announcement} {id : String}
    (waits : (after config turns).announcing = some announcement) (named : announcement.subject = some id) :
    id ∈ (after config turns).system.engine.queue.tasks := by
  induction turns using List.reverseRecOn with
  | nil => cases waits
  | append_singleton turns turn ih =>
    obtain ⟨rep, wired, sound⟩ := System.after_consistent config (eventsOf config turns)
    have recounted := System.after_recounted (events_fine config turns)
    rw [← after_system] at rep wired sound recounted
    rw [after_snoc] at waits ⊢
    simp only [step] at waits
    split at waits
    · cases waits
    · cases beginning : (after config turns).begins turn with
      | none =>
        rw [beginning, Option.none_or] at waits
        exact step_known rep turn (ih waits)
      | some announcement' =>
        rw [beginning, Option.some_or, Option.some.injEq] at waits
        subst waits
        cases turn with
        | scheduler event =>
          simp only [begins] at beginning
          split at beginning
          · rename_i admitted
            have there := announces_known rep wired sound (fun result task reporting =>
              Dict.mem_of_get? (recounted.pending result task reporting).1) beginning named
            simp only [step, systemEvents, if_pos admitted]
            exact there
          · cases beginning
        | pressureReport now =>
          simp only [begins] at beginning
          split at beginning <;> cases beginning
          cases named
        | _ => cases beginning

theorem event_subject (s : System) (announcement : Announcement) :
    (announcement.event s).text "task_id" = announcement.subject := by
  cases announcement <;> rfl

/-- Whatever is published about a task is published after its submission, even when a thread hands the task out before
the submission is announced; only a task of a batch has no such event. -/
theorem submission_first (config : Settings) (turns : List Turn) (turn : Turn) (event : ClusterEvent) (id : String)
    (goes : event ∈ (after config turns).publishes turn) (named : event.text "task_id" = some id)
    (later : event.eventType ≠ .taskSubmitted) (single : id ∉ (eventsOf config turns).flatMap batched) :
    id ∈ (published config turns).filterMap ClusterEvent.submission := by
  obtain ⟨announcement, out, rfl⟩ : ∃ announcement, (after config turns).announced turn = some announcement ∧
      announcement.event (after config turns).system = event := by
    unfold publishes at goes
    obtain ⟨announcement, out, same⟩ := Option.map_eq_some_iff.mp (Option.mem_toList.mp goes)
    exact ⟨announcement, out, same⟩
  have waits : (after config turns).announcing = some announcement := by
    cases turn with
    | publish subscribers => exact (announced_ready out).2
    | _ => cases out
  rw [event_subject] at named
  have known := announcing_known config turns waits named
  rw [after_system] at known
  have introduced := (after_introduced config (eventsOf config turns) known).resolve_left single
  rw [← begins_collect Announcement.submission fun _ => rfl, announced_eq, waits,
    ← published_filterMap event_submission] at introduced
  refine (List.mem_append.mp introduced).resolve_right fun own => ?_
  cases announcement with
  | taskSubmitted => exact later rfl
  | _ => cases own

/-- A waiting call takes the task as soon as it is in the queue, before its submission goes out. -/
def sampleOvertaking : List Turn :=
  [.scheduler (.registerWorker (sampleWorker "w") 0), .publish [], .scheduler (.reserveTask "w" 1),
    .scheduler (.reserveEnters 0 1), .scheduler (.submit (sampleTask "a") (fun _ => 1)),
    .scheduler (.reservePass 0 (fun _ => 2) 1), .scheduler (.proceed (fun _ => 2)), .publish [],
    .scheduler (.reserveReturns 0), .scheduler (.proceed (fun _ => 3))]

theorem submission_first_sample : "a" ∈ (published {} sampleOvertaking).filterMap ClusterEvent.submission := by
  have out : ((after {} sampleOvertaking).announced (.publish [])).bind Announcement.dispatch = some ("a", "w") := by
    decide +kernel
  obtain ⟨announcement, goes, told⟩ := Option.bind_eq_some_iff.mp out
  cases announcement with
  | taskDispatched taskId workerId queue =>
    cases told
    exact submission_first {} sampleOvertaking (.publish [])
      (Announcement.event (after {} sampleOvertaking).system (.taskDispatched "a" "w" queue)) "a"
      (by rw [publishes, goes]; exact List.mem_cons_self) rfl (fun same => by cases same) (by decide +kernel)
  | _ => cases told

end Broadcaster

end TaskRunner
