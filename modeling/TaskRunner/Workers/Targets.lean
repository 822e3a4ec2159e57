import Mathlib

/-!
The target of a task, which `_target` of `cli/main.py` writes from a path and a function name and `_load_callable` of
`workers/executor.py` takes apart again in another process.
-/

namespace TaskRunner

/-- `text.partition(sep)`. -/
def partition (text : String) (sep : Char) : String × String × String :=
  match text.toList.dropWhile (· ≠ sep) with
  | [] => (text, "", "")
  | _ :: after => (.ofList (text.toList.takeWhile (· ≠ sep)), .singleton sep, .ofList after)

theorem partition_join {before after : String} {sep : Char} (clean : sep ∉ before.toList) :
    partition (before ++ .singleton sep ++ after) sep = (before, .singleton sep, after) := by
  have differs : ∀ char ∈ before.toList, decide (char ≠ sep) = true := by
    intro char member
    apply decide_eq_true
    intro same
    exact clean (same ▸ member)
  have text : (before ++ String.singleton sep ++ after).toList = before.toList ++ sep :: after.toList := by
    simp only [String.toList_append, String.toList_singleton, List.append_assoc, List.singleton_append]
  have rest : (before.toList ++ sep :: after.toList).dropWhile (· ≠ sep) = sep :: after.toList := by
    rw [List.dropWhile_append_of_pos differs, List.dropWhile_cons_of_neg (by simp)]
  have first : (before.toList ++ sep :: after.toList).takeWhile (· ≠ sep) = before.toList := by
    rw [List.takeWhile_append_of_pos differs, List.takeWhile_cons_of_neg (by simp), List.append_nil]
  unfold partition
  rw [text, rest, first]
  simp only [String.ofList_toList]

/-- The first part ends before the first separator. -/
theorem partition_clean (text : String) (sep : Char) : sep ∉ (partition text sep).1.toList := by
  unfold partition
  split
  next whole =>
    intro member
    have differs := List.dropWhile_eq_nil_iff.mp whole sep member
    simp at differs
  next =>
    intro member
    rw [String.toList_ofList] at member
    have differs := List.mem_takeWhile_imp member
    simp at differs

/-- `pathlib.Path`, whose text is never empty. -/
structure TaskPath where
  text : String
  nonempty : text ≠ ""

/-- `_target`, where `pathExists` looks into the file system of the command line. -/
def target (pathExists : TaskPath → Bool) (taskPath : TaskPath) (function : String) : String :=
  if ':' ∈ taskPath.text.toList ∧ ¬pathExists taskPath then taskPath.text
  else taskPath.text ++ ":" ++ function

inductive LoadError where
  | valueError (message : String)
  | importError (message : String)
  | attributeError (message : String)
  /-- What the code of a module raises. -/
  | raised (error : String)
  deriving DecidableEq

/-- The module path and the function name `_load_callable` finds in a target. -/
def resolveTarget (target : String) : Except LoadError (String × String) :=
  let (modulePath, _, functionName) := partition target ':'
  if modulePath = "" ∨ functionName = "" then
    .error (.valueError "target must use 'path/to/file.py:function_name' or 'module:function_name'")
  else .ok (modulePath, functionName)

/-- The file system and the import system of a worker. -/
structure Importer (Module Callable : Type) where
  pathExists : String → Bool
  resolve : String → String
  /-- The module of a file, where `spec_from_file_location` finds a loader for it. -/
  execModule : String → Option (Except LoadError Module)
  importModule : String → String → Except LoadError Module
  /-- An attribute that is callable. -/
  getattr : Module → String → Option Callable

namespace Importer

variable {Module Callable : Type}

/-- The module at a path, which a file is read from and anything else is the name of. -/
def loadModule (worker : Importer Module Callable) (modulePath functionName : String) : Except LoadError Module :=
  if ".py".toList <:+ modulePath.toList ∨ worker.pathExists modulePath then
    let path := worker.resolve modulePath
    (worker.execModule path).getD (.error (.importError s!"cannot import task module {path}"))
  else worker.importModule modulePath functionName

def loadCallable (worker : Importer Module Callable) (target : String) : Except LoadError Callable := do
  let (modulePath, functionName) ← resolveTarget target
  let module ← worker.loadModule modulePath functionName
  (worker.getattr module functionName).elim (.error (.attributeError s!"{target} is not callable")) .ok

end Importer

theorem target_of_present {pathExists : TaskPath → Bool} {taskPath : TaskPath} (present : pathExists taskPath)
    (function : String) : target pathExists taskPath function = taskPath.text ++ ":" ++ function :=
  if_neg fun unread => unread.2 present

/-- A target is cut at its first colon, whoever put it there. -/
theorem resolveTarget_join {modulePath functionName : String} (clean : ':' ∉ modulePath.toList)
    (path : modulePath ≠ "") (name : functionName ≠ "") :
    resolveTarget (modulePath ++ ":" ++ functionName) = .ok (modulePath, functionName) := by
  have cut : partition (modulePath ++ ":" ++ functionName) ':' = (modulePath, ":", functionName) := partition_join clean
  unfold resolveTarget
  rw [cut]
  exact if_neg (not_or.mpr ⟨path, name⟩)

theorem resolveTarget_ok {target modulePath functionName : String}
    (resolved : resolveTarget target = .ok (modulePath, functionName)) :
    ':' ∉ modulePath.toList ∧ modulePath ≠ "" ∧ functionName ≠ "" := by
  unfold resolveTarget at resolved
  dsimp only at resolved
  split at resolved
  · contradiction
  next full =>
    obtain ⟨path, name⟩ := not_or.mp full
    obtain ⟨rfl, rfl⟩ := Prod.mk.inj (Except.ok.inj resolved)
    exact ⟨partition_clean target ':', path, name⟩

/-- The worker finds the path and the function name of an existing file in its target exactly when the path has no colon
and there is a function name. -/
theorem target_resolved_iff {pathExists : TaskPath → Bool} {taskPath : TaskPath} (present : pathExists taskPath)
    (function : String) :
    resolveTarget (target pathExists taskPath function) = .ok (taskPath.text, function) ↔
      ':' ∉ taskPath.text.toList ∧ function ≠ "" := by
  rw [target_of_present present]
  constructor
  · intro resolved
    obtain ⟨clean, -, name⟩ := resolveTarget_ok resolved
    exact ⟨clean, name⟩
  · rintro ⟨clean, name⟩
    exact resolveTarget_join clean taskPath.nonempty name

theorem target_resolved_sample :
    resolveTarget (target (fun _ => true) ⟨"jobs/run.py", by decide⟩ "run") = .ok ("jobs/run.py", "run") :=
  (target_resolved_iff rfl "run").mpr ⟨by decide, by decide⟩

/-- The colon of a drive letter is cut at: the module path is the letter and the function name all the rest. -/
theorem target_resolved_fails :
    resolveTarget (target (fun _ => true) ⟨"C:\\jobs\\run.py", by decide⟩ "run") = .ok ("C", "\\jobs\\run.py:run") ∧
      ¬∀ (pathExists : TaskPath → Bool) (taskPath : TaskPath) (function : String), pathExists taskPath →
        ':' ∉ function.toList → function ≠ "" →
        resolveTarget (target pathExists taskPath function) = .ok (taskPath.text, function) := by
  have cut : resolveTarget (target (fun _ => true) ⟨"C:\\jobs\\run.py", by decide⟩ "run") =
      .ok ("C", "\\jobs\\run.py:run") := by
    rw [target_of_present rfl]
    exact @resolveTarget_join "C" "\\jobs\\run.py:run" (by decide) (by decide) (by decide)
  refine ⟨cut, ?_⟩
  intro decoded
  have whole := decoded (fun _ => true) ⟨"C:\\jobs\\run.py", by decide⟩ "run" rfl (by decide) (by decide)
  rw [cut] at whole
  have same := congrArg Prod.fst (Except.ok.inj whole)
  revert same
  decide

/-- What the worker then loads is the function of that name in the file at that path, if it has the file too. -/
theorem Importer.loadCallable_target {Module Callable : Type} (worker : Importer Module Callable)
    {pathExists : TaskPath → Bool} {taskPath : TaskPath} {function : String} (present : pathExists taskPath)
    (clean : ':' ∉ taskPath.text.toList) (name : function ≠ "") (there : worker.pathExists taskPath.text)
    {loaded : Module} (read : worker.execModule (worker.resolve taskPath.text) = some (.ok loaded))
    {callable : Callable} (found : worker.getattr loaded function = some callable) :
    worker.loadCallable (target pathExists taskPath function) = .ok callable := by
  have resolved : resolveTarget (target pathExists taskPath function) = .ok (taskPath.text, function) := by
    rw [target_of_present present]
    exact resolveTarget_join clean taskPath.nonempty name
  have module : worker.loadModule taskPath.text function = .ok loaded := by
    unfold loadModule
    rw [if_pos (.inr there)]
    dsimp only
    rw [read]
    rfl
  unfold loadCallable
  rw [resolved]
  simp only [bind, Except.bind, module, found, Option.elim_some]

end TaskRunner
