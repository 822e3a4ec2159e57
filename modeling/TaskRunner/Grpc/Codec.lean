import TaskRunner.Shared.Models

/-!
The wire format of specs and envelopes: the messages of `taskrunner.proto` that carry them, and `grpc/codec.py`.
A decoder fills in a default wherever a field holds the zero value of its type.
-/

namespace TaskRunner
open Base

/-- What an `int32` field holds. -/
abbrev Int32Field := { n : Int // -2 ^ 31 ≤ n ∧ n < 2 ^ 31 }

/-- A message refuses an integer that its field has no room for. -/
def Int32Field.of (n : Int) : Except ValueError Int32Field :=
  if room : -2 ^ 31 ≤ n ∧ n < 2 ^ 31 then .ok ⟨n, room⟩ else .error (.outOfRange n)

theorem Int32Field.of_room {n : Int} (room : -2 ^ 31 ≤ n ∧ n < 2 ^ 31) : Int32Field.of n = .ok ⟨n, room⟩ := dif_pos room

namespace Pb2

structure TaskSpec where
  target : String
  payload : Dict String String
  kind : String
  queue : String
  priority : Int32Field
  delaySeconds : ℚ
  maxRetries : Int32Field
  retryBackoffSeconds : ℚ
  timeoutSeconds : ℚ
  affinity : List String
  dependsOn : List String
  batchKey : String

structure TaskEnvelope where
  taskId : String
  spec : TaskSpec
  status : String
  attempts : Int32Field
  assignedWorker : String
  lastError : String
  createdAt : ℚ
  availableAt : ℚ

end Pb2

namespace Codec

/-- `field or default`: zero, like an empty text, gives way to the default. -/
def orElse {α : Type} [DecidableEq α] (zero field default : α) : α := if field = zero then default else field

/-- `text or None`. -/
def orNone (text : String) : Option String := if text = "" then none else some text

theorem orElse_of_ne {α : Type} [DecidableEq α] {zero field : α} (given : field ≠ zero) (default : α) :
    orElse zero field default = field := if_neg given

theorem orElse_eq_iff {α : Type} [DecidableEq α] {zero field default : α} (other : default ≠ zero) :
    orElse zero field default = field ↔ field ≠ zero := by
  constructor
  · rintro same rfl
    rw [orElse, if_pos rfl] at same
    exact other same
  · exact fun given => orElse_of_ne given default

theorem le_orElse {α : Type} [DecidableEq α] [LE α] {bound zero field default : α} (field_le : bound ≤ field)
    (default_le : bound ≤ default) : bound ≤ orElse zero field default := by
  unfold orElse
  split
  · exact default_le
  · exact field_le

theorem orNone_getD {text : Option String} (given : text ≠ some "") : orNone (text.getD "") = text := by
  cases text with
  | none => rfl
  | some text =>
    have filled : text ≠ "" := fun empty => given (congrArg some empty)
    exact if_neg filled

section

variable (dumps : Json → String) (loads : String → Option Json)

def specToProto (spec : TaskSpec) : Except ValueError Pb2.TaskSpec := do
  let priority ← Int32Field.of spec.priority
  let maxRetries ← Int32Field.of spec.maxRetries
  return {
    target := spec.target
    payload := spec.payload.mapValues dumps
    kind := spec.kind.value
    queue := spec.queue
    priority
    delaySeconds := spec.delaySeconds
    maxRetries
    retryBackoffSeconds := spec.retryBackoffSeconds
    timeoutSeconds := spec.timeoutSeconds
    affinity := sortedSet spec.affinity
    dependsOn := sortedSet spec.dependsOn
    batchKey := spec.batchKey.getD "" }

/-- A payload text that is no JSON stays the text it is. -/
def specFromProto (message : Pb2.TaskSpec) : Except ValueError TaskSpec := do
  let kind ← TaskKind.ofValue (orElse "" message.kind TaskKind.io.value)
  return TaskSpec.normalized {
    target := message.target
    payload := message.payload.mapValues fun value => (loads value).getD (.str value)
    kind
    queue := orElse "" message.queue "default"
    priority := orElse 0 message.priority.val 100
    delaySeconds := message.delaySeconds
    maxRetries := message.maxRetries.val
    retryBackoffSeconds := orElse 0 message.retryBackoffSeconds (3 / 2)
    timeoutSeconds := orElse 0 message.timeoutSeconds 60
    affinity := message.affinity.toFinset
    dependsOn := message.dependsOn.toFinset
    batchKey := orNone message.batchKey }

def taskToProto (task : TaskEnvelope) : Except ValueError Pb2.TaskEnvelope := do
  let spec ← specToProto dumps task.spec
  let attempts ← Int32Field.of task.attempts
  return {
    taskId := task.taskId
    spec
    status := task.status.value
    attempts
    assignedWorker := task.assignedWorker.getD ""
    lastError := task.lastError.getD ""
    createdAt := task.createdAt
    availableAt := task.availableAt }

def taskFromProto (message : Pb2.TaskEnvelope) : Except ValueError TaskEnvelope := do
  let spec ← specFromProto loads message.spec
  let status ← TaskStatus.ofValue (orElse "" message.status TaskStatus.pending.value)
  return {
    taskId := message.taskId
    spec
    status
    attempts := message.attempts.val
    assignedWorker := orNone message.assignedWorker
    lastError := orNone message.lastError
    createdAt := message.createdAt
    availableAt := message.availableAt }

/-- A spec as the scheduler reads it off the wire. -/
def specOverWire (spec : TaskSpec) : Except ValueError TaskSpec := specToProto dumps spec >>= specFromProto loads

def taskOverWire (task : TaskEnvelope) : Except ValueError TaskEnvelope := taskToProto dumps task >>= taskFromProto loads

end

end Codec

/-! ### Round trips -/

/-- A normalized spec whose integers fit their fields and whose batch key, if any, has a text. -/
structure TaskSpec.Transportable (spec : TaskSpec) : Prop where
  normalized : spec.normalized = spec
  priority : spec.priority < 2 ^ 31
  maxRetries : spec.maxRetries < 2 ^ 31
  batchKey : spec.batchKey ≠ some ""

structure TaskEnvelope.Transportable (task : TaskEnvelope) : Prop where
  spec : task.spec.Transportable
  attempts : -2 ^ 31 ≤ task.attempts ∧ task.attempts < 2 ^ 31
  assignedWorker : task.assignedWorker ≠ some ""
  lastError : task.lastError ≠ some ""

namespace TaskSpec

/-- What normalization leaves as it is. -/
theorem normalized_iff (spec : TaskSpec) :
    spec.normalized = spec ↔ spec.queue ≠ "" ∧ 0 ≤ spec.priority ∧ 0 ≤ spec.delaySeconds ∧ 0 ≤ spec.maxRetries ∧
      0 ≤ spec.retryBackoffSeconds ∧ 1 / 10 ≤ spec.timeoutSeconds := by
  constructor
  · intro normalized
    refine ⟨?_, ?_, ?_, ?_, ?_, ?_⟩
    · intro empty
      have queue := congrArg TaskSpec.queue normalized
      simp [TaskSpec.normalized, empty] at queue
    · exact max_eq_right_iff.mp (congrArg TaskSpec.priority normalized)
    · exact max_eq_right_iff.mp (congrArg TaskSpec.delaySeconds normalized)
    · exact max_eq_right_iff.mp (congrArg TaskSpec.maxRetries normalized)
    · exact max_eq_right_iff.mp (congrArg TaskSpec.retryBackoffSeconds normalized)
    · exact max_eq_right_iff.mp (congrArg TaskSpec.timeoutSeconds normalized)
  · rintro ⟨queue, priority, delay, retries, backoff, timeout⟩
    rw [TaskSpec.normalized, if_neg queue, max_eq_right priority, max_eq_right delay, max_eq_right retries,
      max_eq_right backoff, max_eq_right timeout]

/-- The spec with the values a decoder puts in place of a zero priority and a zero backoff. -/
def refilled (spec : TaskSpec) : TaskSpec :=
  { spec with
    priority := Codec.orElse 0 spec.priority 100
    retryBackoffSeconds := Codec.orElse 0 spec.retryBackoffSeconds (3 / 2) }

/-- The spec survives the decoder's defaults. -/
def Kept (spec : TaskSpec) : Prop := spec.priority ≠ 0 ∧ spec.retryBackoffSeconds ≠ 0

theorem priority_refilled_iff (spec : TaskSpec) : spec.refilled.priority = spec.priority ↔ spec.priority ≠ 0 :=
  Codec.orElse_eq_iff (by decide)

theorem backoff_refilled_iff (spec : TaskSpec) :
    spec.refilled.retryBackoffSeconds = spec.retryBackoffSeconds ↔ spec.retryBackoffSeconds ≠ 0 :=
  Codec.orElse_eq_iff (by norm_num)

theorem refilled_eq_iff (spec : TaskSpec) : spec.refilled = spec ↔ spec.Kept := by
  constructor
  · intro same
    exact ⟨spec.priority_refilled_iff.mp (congrArg TaskSpec.priority same),
      spec.backoff_refilled_iff.mp (congrArg TaskSpec.retryBackoffSeconds same)⟩
  · intro kept
    rw [refilled, Codec.orElse_of_ne kept.1, Codec.orElse_of_ne kept.2]

theorem refilled_normalized {spec : TaskSpec} (normalized : spec.normalized = spec) :
    spec.refilled.normalized = spec.refilled := by
  obtain ⟨queue, priority, delay, retries, backoff, timeout⟩ := spec.normalized_iff.mp normalized
  exact spec.refilled.normalized_iff.mpr ⟨queue, Codec.le_orElse priority (by decide), delay, retries,
    Codec.le_orElse backoff (by norm_num), timeout⟩

end TaskSpec

namespace Codec

variable {dumps : Json → String} {loads : String → Option Json}

/-- Every field comes back but the two whose zero the decoder takes for a missing value. -/
theorem specOverWire_eq {spec : TaskSpec} (fits : spec.Transportable)
    (undone : ∀ value ∈ spec.payload.values, loads (dumps value) = some value) :
    specOverWire dumps loads spec = .ok spec.refilled := by
  obtain ⟨named, priority, _, retries, _, timeout⟩ := spec.normalized_iff.mp fits.normalized
  have room : ∀ {n : Int}, 0 ≤ n → n < 2 ^ 31 → -2 ^ 31 ≤ n ∧ n < 2 ^ 31 := fun low high => ⟨by omega, high⟩
  have payload : (spec.payload.mapValues dumps).mapValues (fun value => (loads value).getD (.str value)) =
      spec.payload := by
    apply Dict.mapValues_mapValues
    intro value member
    rw [undone value member]
    rfl
  have kind : orElse "" spec.kind.value TaskKind.io.value = spec.kind.value := by
    refine orElse_of_ne ?_ _
    cases spec.kind <;> decide
  have queue := orElse_of_ne named "default"
  have given : spec.timeoutSeconds ≠ 0 := by
    intro zero
    rw [zero] at timeout
    norm_num at timeout
  have decoded : specOverWire dumps loads spec = .ok spec.refilled.normalized := by
    rw [specOverWire, specToProto, Int32Field.of_room (room priority fits.priority),
      Int32Field.of_room (room retries fits.maxRetries)]
    show specFromProto loads _ = _
    simp only [specFromProto, kind, TaskKind.ofValue_value, payload, queue, orElse_of_ne given, toFinset_sortedSet,
      orNone_getD fits.batchKey]
    rfl
  rw [decoded, TaskSpec.refilled_normalized fits.normalized]

theorem taskOverWire_eq {task : TaskEnvelope} (fits : task.Transportable)
    (undone : ∀ value ∈ task.spec.payload.values, loads (dumps value) = some value) :
    taskOverWire dumps loads task = .ok { task with spec := task.spec.refilled, leaseDeadline := none } := by
  have status : orElse "" task.status.value TaskStatus.pending.value = task.status.value := by
    refine orElse_of_ne ?_ _
    cases task.status <;> decide
  have spec := specOverWire_eq fits.spec undone
  rw [specOverWire] at spec
  cases encoded : specToProto dumps task.spec with
  | error error =>
    rw [encoded] at spec
    cases spec
  | ok message =>
    rw [encoded] at spec
    change specFromProto loads message = _ at spec
    rw [taskOverWire, taskToProto, encoded, Int32Field.of_room fits.attempts]
    show taskFromProto loads _ = _
    simp only [taskFromProto, spec, status, TaskStatus.ofValue_value, orNone_getD fits.assignedWorker,
      orNone_getD fits.lastError]
    rfl

end Codec

/-! ### The same spec over HTTP -/

/-- The body of `POST /tasks`. -/
structure SubmitTaskBody where
  target : String
  payload : Dict String Json := Dict.empty
  kind : TaskKind := .io
  queue : String := "default"
  priority : Int := 100
  delaySeconds : ℚ := 0
  maxRetries : Int := 3
  retryBackoffSeconds : ℚ := 3 / 2
  timeoutSeconds : ℚ := 60
  affinity : Finset String := ∅
  dependsOn : Finset String := ∅
  batchKey : Option String := none

def SubmitTaskBody.toSpec (body : SubmitTaskBody) : TaskSpec :=
  TaskSpec.normalized {
    target := body.target
    payload := body.payload
    kind := body.kind
    queue := body.queue
    priority := body.priority
    delaySeconds := body.delaySeconds
    maxRetries := body.maxRetries
    retryBackoffSeconds := body.retryBackoffSeconds
    timeoutSeconds := body.timeoutSeconds
    affinity := body.affinity
    dependsOn := body.dependsOn
    batchKey := body.batchKey }

/-- The two specs agree on what decides when and where their task runs. -/
structure SameTerms (first second : TaskSpec) : Prop where
  priority : first.priority = second.priority
  maxRetries : first.maxRetries = second.maxRetries
  retryBackoffSeconds : first.retryBackoffSeconds = second.retryBackoffSeconds
  timeoutSeconds : first.timeoutSeconds = second.timeoutSeconds
  queue : first.queue = second.queue
  affinity : first.affinity = second.affinity

theorem sameTerms_refilled_iff (spec : TaskSpec) : SameTerms spec.refilled spec ↔ spec.Kept := by
  constructor
  · intro same
    exact ⟨spec.priority_refilled_iff.mp same.priority, spec.backoff_refilled_iff.mp same.retryBackoffSeconds⟩
  · intro kept
    rw [spec.refilled_eq_iff.mpr kept]
    exact ⟨rfl, rfl, rfl, rfl, rfl, rfl⟩

namespace Codec

/-- A spec comes back from the wire as it was, its envelopes do but for the lease, and it is queued as over HTTP,
exactly when neither its priority nor its backoff is zero. -/
theorem wire_roundtrip_iff {dumps : Json → String} {loads : String → Option Json} {spec : TaskSpec}
    (fits : spec.Transportable) (undone : ∀ value ∈ spec.payload.values, loads (dumps value) = some value) :
    (specOverWire dumps loads spec = .ok spec ↔ spec.Kept) ∧
      (∀ task : TaskEnvelope, task.spec = spec → task.Transportable →
        (taskOverWire dumps loads task = .ok { task with leaseDeadline := none } ↔ spec.Kept)) ∧
      ∀ body : SubmitTaskBody, body.toSpec = spec →
        ((∃ received, specOverWire dumps loads spec = .ok received ∧ SameTerms received body.toSpec) ↔ spec.Kept) := by
  have received := specOverWire_eq fits undone
  refine ⟨?_, ?_, ?_⟩
  · rw [received, Except.ok.injEq]
    exact spec.refilled_eq_iff
  · rintro task rfl transportable
    rw [taskOverWire_eq transportable undone, Except.ok.injEq, ← TaskSpec.refilled_eq_iff]
    constructor
    · exact fun same => congrArg TaskEnvelope.spec same
    · exact fun same => by rw [same]
  · rintro body rfl
    rw [← sameTerms_refilled_iff, received]
    constructor
    · rintro ⟨other, same, terms⟩
      rw [Except.ok.inj same]
      exact terms
    · exact fun terms => ⟨_, rfl, terms⟩

def samplePayload : Dict String Json := Dict.empty.set "n" (.int 3)

def sampleSpec : TaskSpec where
  target := "jobs:run"
  payload := samplePayload
  affinity := {"gpu"}

def sampleDumps : Json → String
  | .int n => toString n
  | _ => "null"

def sampleLoads (text : String) : Option Json := if text = "3" then some (.int 3) else none

theorem sample_undone (value : Json) (member : value ∈ samplePayload.values) :
    sampleLoads (sampleDumps value) = some value := by
  have one : value = .int 3 := List.mem_singleton.mp member
  rw [one]
  exact if_pos (by decide +kernel)

theorem sampleSpec_transportable : sampleSpec.Transportable where
  normalized := by
    rw [TaskSpec.normalized_iff]
    decide +kernel
  priority := by decide
  maxRetries := by decide
  batchKey := by decide

/-- A task on its third attempt, under a lease. -/
def sampleEnvelope : TaskEnvelope where
  spec := sampleSpec
  taskId := "a"
  createdAt := 1
  availableAt := 2
  attempts := 2
  status := .running
  lastError := some "task failed"
  assignedWorker := some "w"
  leaseDeadline := some 32

def sampleBody : SubmitTaskBody where
  target := "jobs:run"
  payload := samplePayload
  affinity := {"gpu"}

theorem wire_roundtrip_sample :
    specOverWire sampleDumps sampleLoads sampleSpec = .ok sampleSpec ∧
      taskOverWire sampleDumps sampleLoads sampleEnvelope = .ok { sampleEnvelope with leaseDeadline := none } ∧
      ∃ received, specOverWire sampleDumps sampleLoads sampleSpec = .ok received ∧
        SameTerms received sampleBody.toSpec := by
  have kept : sampleSpec.Kept := ⟨by decide, by decide +kernel⟩
  obtain ⟨spec, task, body⟩ := wire_roundtrip_iff sampleSpec_transportable sample_undone
  refine ⟨spec.mpr kept, (task sampleEnvelope rfl ?_).mpr kept, (body sampleBody ?_).mpr kept⟩
  · exact ⟨sampleSpec_transportable, by decide, by decide, by decide⟩
  · exact sampleSpec_transportable.normalized

/-- The most urgent priority there is, and no pause between attempts. -/
def sampleUrgent : TaskSpec := { sampleSpec with priority := 0, retryBackoffSeconds := 0 }

theorem sampleUrgent_transportable : sampleUrgent.Transportable where
  normalized := by
    rw [TaskSpec.normalized_iff]
    decide +kernel
  priority := by decide
  maxRetries := by decide
  batchKey := by decide

def sampleUrgentBody : SubmitTaskBody where
  target := "jobs:run"
  payload := samplePayload
  priority := 0
  retryBackoffSeconds := 0
  affinity := {"gpu"}

theorem wire_roundtrip_fails :
    sampleUrgent.Transportable ∧ sampleUrgentBody.toSpec = sampleUrgent ∧
      specOverWire sampleDumps sampleLoads sampleUrgent =
        .ok { sampleUrgent with priority := 100, retryBackoffSeconds := 3 / 2 } ∧
      specOverWire sampleDumps sampleLoads sampleUrgent ≠ .ok sampleUrgent := by
  have received := specOverWire_eq sampleUrgent_transportable sample_undone
  refine ⟨sampleUrgent_transportable, sampleUrgent_transportable.normalized, received, ?_⟩
  rw [received]
  intro same
  have kept := sampleUrgent.refilled_eq_iff.mp (Except.ok.inj same)
  exact kept.1 rfl

end Codec

end TaskRunner
