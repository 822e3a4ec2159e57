import Mathlib
import TaskRunner.Base.Dict

/-!
`ORDER BY`, `LIMIT` and `GROUP BY` over the rows of a table. Rows that `ORDER BY` does not tell apart come in the order
of the table, where SQL leaves their order open.
-/

namespace TaskRunner.Base

variable {α κ : Type*}

/-! ### Order and limit -/

section Order

variable [LinearOrder κ]

/-- `ORDER BY key`. -/
def orderBy (key : α → κ) (rows : List α) : List α := rows.mergeSort fun first second => decide (key first ≤ key second)

/-- `ORDER BY key DESC`. -/
def orderByDesc (key : α → κ) (rows : List α) : List α :=
  rows.mergeSort fun first second => decide (key second ≤ key first)

/-- `LIMIT n`; a negative limit is none. -/
def limit (n : Int) (rows : List α) : List α := if n < 0 then rows else rows.take n.toNat

theorem orderBy_perm (key : α → κ) (rows : List α) : (orderBy key rows).Perm rows := List.mergeSort_perm _ _

theorem orderByDesc_perm (key : α → κ) (rows : List α) : (orderByDesc key rows).Perm rows := List.mergeSort_perm _ _

theorem orderByDesc_pairwise (key : α → κ) (rows : List α) :
    (orderByDesc key rows).Pairwise fun first second => key second ≤ key first := by
  have sorted : (orderByDesc key rows).Pairwise fun first second => decide (key second ≤ key first) = true := by
    apply List.pairwise_mergeSort
    · intro first second third above below
      exact decide_eq_true ((of_decide_eq_true below).trans (of_decide_eq_true above))
    · intro first second
      rcases le_total (key second) (key first) with below | below <;> simp [below]
  exact sorted.imp fun below => of_decide_eq_true below

theorem orderBy_pairwise (key : α → κ) (rows : List α) :
    (orderBy key rows).Pairwise fun first second => key first ≤ key second :=
  orderByDesc_pairwise (fun row => OrderDual.toDual (key row)) rows

/-- Rows with distinct keys come in strictly rising order. -/
theorem orderBy_rising {key : α → κ} {rows : List α} (distinct : (rows.map key).Nodup) :
    ((orderBy key rows).map key).Pairwise (· < ·) := by
  have nodup := ((orderBy_perm key rows).map key).nodup_iff.mpr distinct
  have sorted := List.pairwise_map.mpr (orderBy_pairwise key rows)
  exact (sorted.and nodup).imp fun both => lt_of_le_of_ne both.1 both.2

theorem limit_length (n : Int) (rows : List α) :
    (limit n rows).length = if n < 0 then rows.length else min n.toNat rows.length := by
  unfold limit
  split
  · rfl
  · exact List.length_take

theorem limit_split (n : Int) (rows : List α) : ∃ rest, limit n rows ++ rest = rows := by
  unfold limit
  split
  · exact ⟨[], List.append_nil rows⟩
  · exact ⟨rows.drop n.toNat, List.take_append_drop ..⟩

/-- What a limit leaves out comes after what it lets through. -/
theorem limit_orderByDesc (key : α → κ) (n : Int) (rows : List α) :
    ∃ rest, (limit n (orderByDesc key rows) ++ rest).Perm rows ∧
      ∀ row ∈ limit n (orderByDesc key rows), ∀ other ∈ rest, key other ≤ key row := by
  obtain ⟨rest, whole⟩ := limit_split n (orderByDesc key rows)
  refine ⟨rest, ?_, ?_⟩
  · rw [whole]
    exact orderByDesc_perm key rows
  · intro row there other left
    have sorted := orderByDesc_pairwise key rows
    rw [← whole] at sorted
    exact (List.pairwise_append.mp sorted).2.2 row there other left

end Order

/-! ### Groups -/

section Groups

variable [DecidableEq κ]

/-- `SELECT key, COUNT(*) … GROUP BY key`. -/
def groupCount (key : α → κ) (rows : List α) : Dict κ ℕ :=
  rows.foldl (fun counts row => counts.set (key row) (counts.getD (key row) 0 + 1)) Dict.empty

theorem foldl_count (key : α → κ) (rows : List α) (counts : Dict κ ℕ) (k : κ) :
    (rows.foldl (fun counts row => counts.set (key row) (counts.getD (key row) 0 + 1)) counts).getD k 0 =
      counts.getD k 0 + rows.countP fun row => key row = k := by
  induction rows generalizing counts with
  | nil => rfl
  | cons row rest ih =>
    rw [List.foldl_cons, ih, List.countP_cons]
    by_cases same : k = key row
    · subst same
      simp only [Dict.getD, Dict.get?_set_self, Option.getD_some, decide_true, if_true]
      omega
    · simp [Dict.getD, Dict.get?_set_ne _ same, Ne.symm same]

/-- A group counts the rows that belong to it. -/
theorem groupCount_getD (key : α → κ) (rows : List α) (k : κ) :
    (groupCount key rows).getD k 0 = rows.countP fun row => key row = k := by
  rw [groupCount, foldl_count]
  exact Nat.zero_add _

/-- A count over the values of a table is a count of its keys. -/
theorem Dict.countP_values {ν : Type*} (d : Dict κ ν) (p : ν → Bool) :
    d.values.countP p = (d.keys.filter fun k => (d.get? k).any p).length := by
  rw [values, keys, List.countP_map, List.filter_map, List.length_map, List.countP_eq_length_filter]
  refine congrArg List.length (List.filter_congr fun entry member => ?_)
  have found := (d.mem_entries_iff entry.1 entry.2).mp member
  simp [found]

end Groups

end TaskRunner.Base
