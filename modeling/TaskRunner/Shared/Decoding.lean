import TaskRunner.Shared.Models

/-!
`TaskEnvelope.from_dict` of `shared/models.py`, on what `to_dict` returns and `json` reads. A field is given the type it
is declared with; where Python would carry a value of another type along, decoding ends.
-/

namespace TaskRunner
open Base

inductive DecodeError where
  /-- `KeyError`, or the `TypeError` for an argument without a default. -/
  | missing (name : String)
  /-- The `TypeError` for an argument the constructor does not have. -/
  | unexpected (name : String)
  | illTyped (name : String)
  /-- The `ValueError` of `int` and `float` for a text they do not read. -/
  | literal (text : String)
  | invalid (error : ValueError)

namespace Json

/-- `data.get(name, default)`. -/
def get (data : List (String × Json)) (name : String) (default : Json) : Json := (Dict.find name data).getD default

/-- `not value`. -/
def falsy : Json → Bool
  | .null => true
  | .bool b => !b
  | .int n => decide (n = 0)
  | .float x => decide (x = 0)
  | .str s => decide (s = "")
  | .arr items => items.isEmpty
  | .obj fields => fields.isEmpty

def toText (name : String) : Json → Except DecodeError String
  | .str s => .ok s
  | _ => .error (.illTyped name)

/-- A text, or an empty one for whatever is false. -/
def orEmpty (name : String) (value : Json) : Except DecodeError String :=
  if value.falsy then .ok "" else value.toText name

def toOption (name : String) : Json → Except DecodeError (Option String)
  | .null => .ok none
  | .str s => .ok (some s)
  | _ => .error (.illTyped name)

def toTime (name : String) : Json → Except DecodeError (Option ℚ)
  | .null => .ok none
  | .int n => .ok (some n)
  | .float x => .ok (some x)
  | _ => .error (.illTyped name)

def toDict (name : String) : Json → Except DecodeError (Dict String Json)
  | .obj fields => .ok (Dict.ofEntries fields)
  | _ => .error (.illTyped name)

/-- `set(value)`: the characters of a text and the keys of a dictionary are elements as well. -/
def toSet (name : String) : Json → Except DecodeError (Finset String)
  | .arr items => (items.mapM (toText name)).map List.toFinset
  | .str s => .ok (s.toList.map String.singleton).toFinset
  | .obj fields => .ok (fields.map Prod.fst).toFinset
  | _ => .error (.illTyped name)

def toKind (name : String) : Json → Except DecodeError TaskKind
  | .str s => (TaskKind.ofValue s).mapError .invalid
  | _ => .error (.illTyped name)

def toStatus (name : String) : Json → Except DecodeError TaskStatus
  | .str s => (TaskStatus.ofValue s).mapError .invalid
  | _ => .error (.illTyped name)

/-- `int(value)`: a float is cut off towards zero. -/
def toInt (intOfText : String → Option Int) (name : String) : Json → Except DecodeError Int
  | .bool b => .ok (if b then 1 else 0)
  | .int n => .ok n
  | .float x => .ok (x.num.tdiv x.den)
  | .str s => (intOfText s).elim (.error (.literal s)) .ok
  | _ => .error (.illTyped name)

/-- `float(value)`. -/
def toFloat (floatOfText : String → Option ℚ) (name : String) : Json → Except DecodeError ℚ
  | .bool b => .ok (if b then 1 else 0)
  | .int n => .ok n
  | .float x => .ok x
  | .str s => (floatOfText s).elim (.error (.literal s)) .ok
  | _ => .error (.illTyped name)

@[simp] theorem orEmpty_str (name text : String) : orEmpty name (.str text) = .ok text := by
  unfold orEmpty
  by_cases empty : text = ""
  · rw [empty]
    rfl
  · rw [show (Json.str text).falsy = false from decide_eq_false empty]
    rfl

@[simp] theorem toOption_ofOption (name : String) (text : Option String) : toOption name (ofOption text) = .ok text := by
  cases text <;> rfl

@[simp] theorem toTime_ofTime (name : String) (time : Option ℚ) : toTime name (ofTime time) = .ok time := by
  cases time <;> rfl

theorem mapM_toText (name : String) (texts : List String) : (texts.map Json.str).mapM (toText name) = .ok texts := by
  induction texts with
  | nil => rfl
  | cons text rest ih =>
    rw [List.map_cons, List.mapM_cons, ih]
    rfl

@[simp] theorem toSet_ofSet (name : String) (s : Finset String) : toSet name (ofSet s) = .ok s := by
  show ((s.sort.map Json.str).mapM (toText name)).map List.toFinset = .ok s
  rw [mapM_toText]
  exact congrArg Except.ok (toFinset_sortedSet s)

@[simp] theorem toKind_value (name : String) (kind : TaskKind) : toKind name (.str kind.value) = .ok kind := by
  cases kind <;> rfl

@[simp] theorem toStatus_value (name : String) (status : TaskStatus) : toStatus name (.str status.value) = .ok status := by
  cases status <;> rfl

@[simp] theorem toDict_entries (name : String) (d : Dict String Json) : toDict name (.obj d.entries) = .ok d :=
  congrArg Except.ok (Dict.ofEntries_entries d)

end Json

/-- The arguments `TaskSpec` takes. -/
def TaskSpec.fieldNames : List String :=
  ["target", "payload", "kind", "queue", "priority", "delay_seconds", "max_retries", "retry_backoff_seconds",
    "timeout_seconds", "affinity", "depends_on", "batch_key"]

/-- A dataclass refuses an argument it does not have. -/
def TaskSpec.checkNames (data : List (String × Json)) : Except DecodeError Unit :=
  match data.find? (fun field => field.1 ∉ fieldNames) with
  | some field => .error (.unexpected field.1)
  | none => .ok ()

theorem TaskSpec.checkNames_ok {data : List (String × Json)} (known : data.map Prod.fst ⊆ fieldNames) :
    checkNames data = .ok () := by
  have none : data.find? (fun field => field.1 ∉ fieldNames) = none := by
    refine List.find?_eq_none.mpr fun field member => ?_
    simpa using known (List.mem_map_of_mem member)
  rw [checkNames, none]

section

-- what `int` and `float` make of a text
variable (intOfText : String → Option Int) (floatOfText : String → Option ℚ)

/-- `TaskSpec(**spec_data)`, with the conversions `normalized` makes before it clamps. -/
def TaskSpec.ofFields (data : List (String × Json)) : Except DecodeError TaskSpec := do
  let kind ← (Json.get data "kind" (.str TaskKind.io.value)).toKind "kind"
  let affinity ← (Json.get data "affinity" (.arr [])).toSet "affinity"
  let dependsOn ← (Json.get data "depends_on" (.arr [])).toSet "depends_on"
  checkNames data
  let target ← (Dict.find "target" data).elim (.error (.missing "target")) (Json.toText "target")
  let payload ← (Json.get data "payload" (.obj [])).toDict "payload"
  let queue ← (Json.get data "queue" (.str "default")).orEmpty "queue"
  let priority ← (Json.get data "priority" (.int 100)).toInt intOfText "priority"
  let delaySeconds ← (Json.get data "delay_seconds" (.float 0)).toFloat floatOfText "delay_seconds"
  let maxRetries ← (Json.get data "max_retries" (.int 3)).toInt intOfText "max_retries"
  let retryBackoffSeconds ←
    (Json.get data "retry_backoff_seconds" (.float (3 / 2))).toFloat floatOfText "retry_backoff_seconds"
  let timeoutSeconds ← (Json.get data "timeout_seconds" (.float 60)).toFloat floatOfText "timeout_seconds"
  let batchKey ← (Json.get data "batch_key" .null).toOption "batch_key"
  return { target, payload, kind, queue, priority, delaySeconds, maxRetries, retryBackoffSeconds, timeoutSeconds
           affinity, dependsOn, batchKey }

def TaskSpec.fromDict : Json → Except DecodeError TaskSpec
  | .obj data => (TaskSpec.ofFields intOfText floatOfText data).map TaskSpec.normalized
  | _ => .error (.illTyped "spec")

/-- `time()` is read for both defaults, also when neither is needed. -/
def TaskEnvelope.fromDict (first second : ℚ) : Json → Except DecodeError TaskEnvelope
  | .obj data => do
    let spec ← (Dict.find "spec" data).elim (.error (.missing "spec")) (TaskSpec.fromDict intOfText floatOfText)
    let taskId ← (Dict.find "task_id" data).elim (.error (.missing "task_id")) (Json.toText "task_id")
    let createdAt ← (Json.get data "created_at" (.float first)).toFloat floatOfText "created_at"
    let availableAt ← (Json.get data "available_at" (.float second)).toFloat floatOfText "available_at"
    let attempts ← (Json.get data "attempts" (.int 0)).toInt intOfText "attempts"
    let status ← (Json.get data "status" (.str TaskStatus.pending.value)).toStatus "status"
    let lastError ← (Json.get data "last_error" .null).toOption "last_error"
    let assignedWorker ← (Json.get data "assigned_worker" .null).toOption "assigned_worker"
    let leaseDeadline ← (Json.get data "lease_deadline" .null).toTime "lease_deadline"
    return { spec, taskId, createdAt, availableAt, attempts, status, lastError, assignedWorker, leaseDeadline }
  | _ => .error (.illTyped "data")

@[simp] theorem TaskSpec.fromDict_written (spec : TaskSpec) :
    TaskSpec.fromDict intOfText floatOfText spec.toDict = .ok spec.normalized := by
  simp only [toDict, fromDict, ofFields, Json.get, Dict.find_cons_self, Dict.find_cons_ne, ne_eq, String.reduceEq,
    not_false_eq_true, Option.getD_some, Option.elim_some, Json.toKind_value, Json.toSet_ofSet, Json.toDict_entries,
    Json.toOption_ofOption, Json.orEmpty_str]
  rw [checkNames_ok]
  · rfl
  · simp [fieldNames]

theorem TaskEnvelope.fromDict_written (first second : ℚ) (task : TaskEnvelope) :
    TaskEnvelope.fromDict intOfText floatOfText first second task.toDict =
      .ok { task with spec := task.spec.normalized } := by
  simp only [toDict, fromDict, Json.get, Dict.find_cons_self, Dict.find_cons_ne, ne_eq, String.reduceEq,
    not_false_eq_true, Option.getD_some, Option.elim_some, TaskSpec.fromDict_written, Json.toStatus_value,
    Json.toOption_ofOption, Json.toTime_ofTime]
  rfl

/-- What `to_dict` writes is read back with the spec normalized, and so as it was exactly when the spec was normalized
before; what has been read once is read back unchanged. -/
theorem TaskEnvelope.fromDict_toDict (first second : ℚ) (task : TaskEnvelope) :
    TaskEnvelope.fromDict intOfText floatOfText first second task.toDict =
        .ok { task with spec := task.spec.normalized } ∧
      (TaskEnvelope.fromDict intOfText floatOfText first second task.toDict = .ok task ↔
        task.spec.normalized = task.spec) ∧
      task.spec.normalized.normalized = task.spec.normalized := by
  refine ⟨TaskEnvelope.fromDict_written intOfText floatOfText first second task, ?_,
    task.spec.normalized_normalized⟩
  rw [TaskEnvelope.fromDict_written, Except.ok.injEq]
  constructor
  · intro same
    exact congrArg TaskEnvelope.spec same
  · intro same
    rw [same]

end

end TaskRunner
