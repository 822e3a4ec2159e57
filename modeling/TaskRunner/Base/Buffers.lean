import Mathlib

/-!
Bounded buffers: one that lets its oldest item go when it is full, after `collections.deque`, and one that refuses a
new item, after `asyncio.Queue`.
-/

namespace TaskRunner.Base

variable {α : Type*}

/-- `append` on a deque with `maxlen`. -/
def dequeAppend (maxlen : ℕ) (items : List α) (x : α) : List α :=
  let items := items ++ [x]
  if maxlen < items.length then items.tail else items

/-- `put_nowait` on a queue with `maxsize`, where 0 stands for no bound; `none` is `QueueFull`. -/
def putNowait (maxsize : ℕ) (items : List α) (x : α) : Option (List α) :=
  if 0 < maxsize ∧ maxsize ≤ items.length then none else some (items ++ [x])

/-- A deque that holds the last `maxlen` items of a sequence does so after the sequence went on. -/
theorem dequeAppend_rtake (maxlen : ℕ) (past : List α) (x : α) :
    dequeAppend maxlen (past.rtake maxlen) x = (past ++ [x]).rtake maxlen := by
  cases maxlen with
  | zero => simp [dequeAppend]
  | succ n =>
    rw [List.rtake_concat_succ, dequeAppend]
    by_cases short : past.length ≤ n
    · have whole : past.rtake (n + 1) = past.rtake n := by
        simp only [List.rtake]
        rw [Nat.sub_eq_zero_of_le short, Nat.sub_eq_zero_of_le (Nat.le_succ_of_le short)]
      have fits : ¬ n + 1 < (past.rtake n ++ [x]).length := by
        simp only [List.rtake, List.length_append, List.length_drop, List.length_singleton]
        omega
      rw [whole, if_neg fits]
    · have full : n + 1 < (past.rtake (n + 1) ++ [x]).length := by
        simp only [List.rtake, List.length_append, List.length_drop, List.length_singleton]
        omega
      have oldest : (past.rtake (n + 1)).tail = past.rtake n := by
        simp only [List.rtake, List.tail_drop]
        congr 1
        omega
      have filled : past.rtake (n + 1) ≠ [] := by
        rw [← List.length_pos_iff]
        simp only [List.rtake, List.length_drop]
        omega
      rw [if_pos full, List.tail_append_of_ne_nil filled, oldest]

theorem rtake_min_length (n : ℕ) (items : List α) : items.rtake (min items.length n) = items.rtake n := by
  simp only [List.rtake]
  congr 1
  omega

theorem putNowait_of_room {maxsize : ℕ} {items : List α} (room : items.length < maxsize) (x : α) :
    putNowait maxsize items x = some (items ++ [x]) :=
  if_neg fun full => Nat.not_le.mpr room full.2

end TaskRunner.Base
