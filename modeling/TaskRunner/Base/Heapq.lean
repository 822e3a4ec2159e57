import Mathlib

/-!
Binary min-heaps in a list, after Python's `heapq`: `heappush`, `heappop` and `heapify`.
Where `heapq` carries the sifted item in a local and writes it once at the end, these definitions
keep it in the list and exchange it along the way; the lists that come out are the same.
-/

namespace TaskRunner.Base.Heapq

variable {α : Type*} [LinearOrder α]

/-- Exchange the items at two positions. -/
def swap (heap : List α) (i j : ℕ) : List α :=
  match heap[i]?, heap[j]? with
  | some x, some y => (heap.set i y).set j x
  | _, _ => heap

/-- `_siftdown`: move the item at `pos` towards `startpos` until its parent is not greater. -/
def siftdown : ℕ → List α → ℕ → ℕ → List α
  | 0, heap, _, _ => heap
  | fuel + 1, heap, startpos, pos =>
    if startpos < pos then
      match heap[pos]?, heap[(pos - 1) / 2]? with
      | some newitem, some parent =>
        if newitem < parent then siftdown fuel (swap heap pos ((pos - 1) / 2)) startpos ((pos - 1) / 2)
        else heap
      | _, _ => heap
    else heap

/-- The child `_siftup` moves up: the right one unless the left one is smaller. -/
def smallerChild (heap : List α) (pos : ℕ) : Option ℕ :=
  match heap[2 * pos + 1]?, heap[2 * pos + 2]? with
  | none, _ => none
  | some _, none => some (2 * pos + 1)
  | some left, some right => if left < right then some (2 * pos + 1) else some (2 * pos + 2)

/-- The first loop of `_siftup`: move smaller children up until the item is at a leaf. -/
def sink : ℕ → List α → ℕ → List α × ℕ
  | 0, heap, pos => (heap, pos)
  | fuel + 1, heap, pos =>
    match smallerChild heap pos with
    | none => (heap, pos)
    | some child => sink fuel (swap heap pos child) child

/-- `_siftup`: sink the item at `pos` to a leaf, then sift it back up to where it belongs. -/
def siftup (heap : List α) (pos : ℕ) : List α :=
  let sunk := sink heap.length heap pos
  siftdown sunk.2 sunk.1 pos sunk.2

def heappush (heap : List α) (item : α) : List α := siftdown heap.length (heap ++ [item]) 0 heap.length

/-- The smallest item and the heap without it; `none` is the `IndexError` of an empty heap. -/
def heappop (heap : List α) : Option (α × List α) :=
  match heap.getLast? with
  | none => none
  | some lastelt =>
    match heap.dropLast with
    | [] => some (lastelt, [])
    | returnitem :: rest => some (returnitem, siftup (lastelt :: rest) 0)

def heapify (heap : List α) : List α := ((List.range (heap.length / 2)).reverse).foldl siftup heap

/-! ### The items stay the same -/

omit [LinearOrder α] in
theorem swap_perm (heap : List α) (i j : ℕ) : (swap heap i j).Perm heap := by
  unfold swap
  split
  · rename_i x y hx hy
    obtain ⟨hi, rfl⟩ := List.getElem?_eq_some_iff.mp hx
    obtain ⟨hj, rfl⟩ := List.getElem?_eq_some_iff.mp hy
    exact List.set_set_perm hi hj
  · exact List.Perm.refl _

theorem siftdown_perm (fuel : ℕ) (heap : List α) (startpos pos : ℕ) :
    (siftdown fuel heap startpos pos).Perm heap := by
  induction fuel generalizing heap pos with
  | zero => exact List.Perm.refl _
  | succ fuel ih =>
    unfold siftdown
    split
    · split
      · split
        · exact (ih _ _).trans (swap_perm _ _ _)
        · exact List.Perm.refl _
      · exact List.Perm.refl _
    · exact List.Perm.refl _

theorem sink_perm (fuel : ℕ) (heap : List α) (pos : ℕ) : (sink fuel heap pos).1.Perm heap := by
  induction fuel generalizing heap pos with
  | zero => exact List.Perm.refl _
  | succ fuel ih =>
    unfold sink
    split
    · exact List.Perm.refl _
    · exact (ih _ _).trans (swap_perm _ _ _)

theorem siftup_perm (heap : List α) (pos : ℕ) : (siftup heap pos).Perm heap :=
  (siftdown_perm _ _ _ _).trans (sink_perm _ _ _)

theorem heappush_perm (heap : List α) (item : α) : (heappush heap item).Perm (item :: heap) :=
  (siftdown_perm _ _ _ _).trans (List.perm_append_singleton item heap)

theorem heapify_perm (heap : List α) : (heapify heap).Perm heap := by
  have folded : ∀ (positions : List ℕ) (h : List α), (positions.foldl siftup h).Perm h := by
    intro positions
    induction positions with
    | nil => exact fun h => List.Perm.refl h
    | cons pos rest ih => exact fun h => (ih _).trans (siftup_perm h pos)
  exact folded _ heap

theorem heappop_eq_none (heap : List α) : heappop heap = none ↔ heap = [] := by
  unfold heappop
  cases last : heap.getLast? with
  | none => simpa using last
  | some lastelt =>
    have nonempty : heap ≠ [] := by rintro rfl; cases last
    cases heap.dropLast <;> simp [nonempty]

theorem heappop_perm {heap rest : List α} {item : α} (popped : heappop heap = some (item, rest)) :
    heap.Perm (item :: rest) := by
  unfold heappop at popped
  cases last : heap.getLast? with
  | none => simp [last] at popped
  | some lastelt =>
    have whole : heap.dropLast ++ [lastelt] = heap := List.dropLast_append_getLast? lastelt last
    cases front : heap.dropLast with
    | nil =>
      simp only [last, front, Option.some.injEq, Prod.mk.injEq] at popped
      obtain ⟨rfl, rfl⟩ := popped
      rw [← whole, front]
      exact List.Perm.refl _
    | cons top others =>
      simp only [last, front, Option.some.injEq, Prod.mk.injEq] at popped
      obtain ⟨rfl, rfl⟩ := popped
      rw [← whole, front, List.cons_append]
      exact List.Perm.cons _ ((List.perm_append_singleton lastelt others).trans (siftup_perm _ 0).symm)

theorem heappop_length {heap rest : List α} {item : α} (popped : heappop heap = some (item, rest)) :
    heap.length = rest.length + 1 := by simpa using (heappop_perm popped).length_eq

end TaskRunner.Base.Heapq
