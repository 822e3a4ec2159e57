import TaskRunner.Base.Heapq

/-!
The order of a heap: no item is smaller than its parent. `heappush` and `heappop` keep it, `heapify`
brings it about, and what `heappop` returns is the least item.
-/

namespace TaskRunner.Base.Heapq

variable {α : Type*} [LinearOrder α]

/-- The position 0 is nobody's child, although Python's `(pos - 1) >> 1` gives it a parent. -/
def IsChild (child parent : ℕ) : Prop := 0 < child ∧ (child - 1) / 2 = parent

theorem IsChild.lt {child parent : ℕ} (h : IsChild child parent) : parent < child := by
  unfold IsChild at h
  omega

theorem IsChild.unique {child parent other : ℕ} (first : IsChild child parent) (second : IsChild child other) :
    parent = other := first.2.symm.trans second.2

theorem isChild_iff {child parent : ℕ} : IsChild child parent ↔ child = 2 * parent + 1 ∨ child = 2 * parent + 2 := by
  unfold IsChild
  omega

/-- The parents from `start` on are in order with their children. -/
def OrderedFrom (start : ℕ) (heap : List α) : Prop :=
  ∀ parent child x y, start ≤ parent → IsChild child parent → heap[parent]? = some x → heap[child]? = some y → x ≤ y

/-- A binary heap, as `heapq` keeps them. -/
def Heap (heap : List α) : Prop := OrderedFrom 0 heap

/-- The position lies in the subtree of `start`. -/
inductive Under (start : ℕ) : ℕ → Prop where
  | refl : Under start start
  | child {parent child : ℕ} (under : Under start parent) (isChild : IsChild child parent) : Under start child

theorem Under.le {start pos : ℕ} (under : Under start pos) : start ≤ pos := by
  induction under with
  | refl => exact le_refl start
  | child _ isChild ih => exact ih.trans isChild.lt.le

theorem Under.parent {start pos : ℕ} (under : Under start pos) (below : start < pos) : Under start ((pos - 1) / 2) := by
  cases under with
  | refl => exact absurd below (lt_irrefl start)
  | child under isChild =>
    rw [isChild.2]
    exact under

/-- The item at `pos` may be smaller than its parent; everything else is in order. -/
structure Rising (start : ℕ) (heap : List α) (pos : ℕ) : Prop where
  apart : ∀ parent child x y, start ≤ parent → IsChild child parent → child ≠ pos →
    heap[parent]? = some x → heap[child]? = some y → x ≤ y
  across : ∀ parent child x y, start ≤ parent → IsChild pos parent → IsChild child pos →
    heap[parent]? = some x → heap[child]? = some y → x ≤ y

/-- The item at `pos` may be greater than its children or smaller than its parent; everything else is in order. -/
structure Sinking (start : ℕ) (heap : List α) (pos : ℕ) : Prop where
  apart : ∀ parent child x y, start ≤ parent → IsChild child parent → child ≠ pos → parent ≠ pos →
    heap[parent]? = some x → heap[child]? = some y → x ≤ y
  across : ∀ parent child x y, start ≤ parent → IsChild pos parent → IsChild child pos →
    heap[parent]? = some x → heap[child]? = some y → x ≤ y

omit [LinearOrder α] in
theorem getElem?_swap {heap : List α} {i j : ℕ} {x y : α} (first : heap[i]? = some x) (second : heap[j]? = some y)
    (k : ℕ) : (swap heap i j)[k]? = if k = j then some x else if k = i then some y else heap[k]? := by
  obtain ⟨hi, _⟩ := List.getElem?_eq_some_iff.mp first
  obtain ⟨hj, _⟩ := List.getElem?_eq_some_iff.mp second
  simp only [swap, first, second, List.getElem?_set, List.length_set]
  by_cases atJ : j = k
  · simp [atJ, atJ ▸ hj]
  · by_cases atI : i = k
    · simp [atJ, Ne.symm atJ, atI, atI ▸ hi]
    · simp [atJ, atI, Ne.symm atJ, Ne.symm atI]

/-! ### Towards the root -/

section Rise

variable {start pos : ℕ} {heap : List α} {newitem parentitem : α}

theorem Rising.move (rising : Rising start heap pos) (under : start ≤ (pos - 1) / 2) (below : 0 < pos)
    (here : heap[pos]? = some newitem) (above : heap[(pos - 1) / 2]? = some parentitem) (less : newitem < parentitem) :
    Rising start (swap heap pos ((pos - 1) / 2)) ((pos - 1) / 2) := by
  have isChild : IsChild pos ((pos - 1) / 2) := ⟨below, rfl⟩
  generalize (pos - 1) / 2 = up at under above isChild
  have moved := getElem?_swap here above
  constructor
  · intro parent child x y from_ edge notUp atParent atChild
    rw [moved, if_neg notUp] at atChild
    rw [moved] at atParent
    by_cases childHere : child = pos
    · obtain rfl := edge.unique (childHere ▸ isChild)
      rw [if_pos rfl, Option.some.injEq] at atParent
      rw [if_pos childHere, Option.some.injEq] at atChild
      rw [← atParent, ← atChild]
      exact less.le
    · rw [if_neg childHere] at atChild
      by_cases parentUp : parent = up
      · subst parentUp
        rw [if_pos rfl, Option.some.injEq] at atParent
        rw [← atParent]
        exact less.le.trans (rising.apart _ _ _ _ from_ edge childHere above atChild)
      · rw [if_neg parentUp] at atParent
        by_cases parentHere : parent = pos
        · rw [if_pos parentHere, Option.some.injEq] at atParent
          rw [← atParent]
          exact rising.across _ _ _ _ under isChild (parentHere ▸ edge) above atChild
        · rw [if_neg parentHere] at atParent
          exact rising.apart _ _ _ _ from_ edge childHere atParent atChild
  · intro parent child x y from_ upper edge atParent atChild
    have notHere : up ≠ pos := isChild.lt.ne
    have farther : parent ≠ pos := fun same => absurd (upper.lt.trans isChild.lt) (by omega)
    rw [moved, if_neg upper.lt.ne, if_neg farther] at atParent
    have grand := rising.apart _ _ _ _ from_ upper notHere atParent above
    rw [moved, if_neg edge.lt.ne'] at atChild
    by_cases childHere : child = pos
    · rw [if_pos childHere, Option.some.injEq] at atChild
      rw [← atChild]
      exact grand
    · rw [if_neg childHere] at atChild
      exact grand.trans (rising.apart _ _ _ _ under edge childHere above atChild)

theorem Rising.finish (rising : Rising start heap pos)
    (stop : ∀ parent x y, start ≤ parent → IsChild pos parent → heap[parent]? = some x → heap[pos]? = some y → x ≤ y) :
    OrderedFrom start heap := by
  intro parent child x y from_ edge atParent atChild
  by_cases childHere : child = pos
  · subst childHere
    exact stop parent x y from_ edge atParent atChild
  · exact rising.apart parent child x y from_ edge childHere atParent atChild

theorem siftdown_ordered {fuel : ℕ} (rising : Rising start heap pos) (under : Under start pos) (enough : pos ≤ fuel) :
    OrderedFrom start (siftdown fuel heap start pos) := by
  induction fuel generalizing heap pos with
  | zero =>
    apply rising.finish
    intro parent _ _ _ edge _ _
    exact absurd (edge.lt.trans_le enough) (Nat.not_lt_zero parent)
  | succ fuel ih =>
    unfold siftdown
    split
    · rename_i below
      have positive : 0 < pos := Nat.zero_lt_of_lt below
      have upper := under.parent below
      split
      · rename_i newitem parentitem here above
        split
        · rename_i less
          exact ih (rising.move upper.le positive here above less) upper (by omega)
        · rename_i ordered
          apply rising.finish
          intro parent x y _ edge atParent atPos
          obtain rfl := edge.2
          obtain rfl := Option.some.inj (atParent.symm.trans above)
          obtain rfl := Option.some.inj (atPos.symm.trans here)
          exact not_lt.mp ordered
      · rename_i outside
        apply rising.finish
        intro parent x y _ edge atParent atPos
        obtain rfl := edge.2
        exact (outside y x atPos atParent).elim
    · rename_i top
      apply rising.finish
      intro parent _ _ from_ edge _ _
      exact absurd (from_.trans_lt edge.lt) top

end Rise

/-! ### Towards the leaves -/

theorem smallerChild_none {heap : List α} {pos : ℕ} (leaf : smallerChild heap pos = none) {child : ℕ}
    (edge : IsChild child pos) : heap[child]? = none := by
  have first : heap[2 * pos + 1]? = none := by
    unfold smallerChild at leaf
    split at leaf
    · assumption
    · cases leaf
    · split at leaf <;> cases leaf
  rw [List.getElem?_eq_none_iff] at first ⊢
  rcases isChild_iff.mp edge with rfl | rfl <;> omega

theorem smallerChild_some {heap : List α} {pos child : ℕ} (chosen : smallerChild heap pos = some child) :
    IsChild child pos ∧ ∃ x, heap[child]? = some x ∧
      ∀ other y, IsChild other pos → heap[other]? = some y → x ≤ y := by
  unfold smallerChild at chosen
  split at chosen
  · cases chosen
  · rename_i left found none
    obtain rfl := Option.some.inj chosen
    refine ⟨isChild_iff.mpr (Or.inl rfl), left, found, ?_⟩
    intro other y edge atOther
    rcases isChild_iff.mp edge with rfl | rfl
    · exact (Option.some.inj (found.symm.trans atOther)).le
    · rw [none] at atOther
      cases atOther
  · rename_i left right found found'
    split at chosen
    · rename_i less
      obtain rfl := Option.some.inj chosen
      refine ⟨isChild_iff.mpr (Or.inl rfl), left, found, ?_⟩
      intro other y edge atOther
      rcases isChild_iff.mp edge with rfl | rfl
      · exact (Option.some.inj (found.symm.trans atOther)).le
      · rw [← Option.some.inj (found'.symm.trans atOther)]
        exact less.le
    · rename_i more
      obtain rfl := Option.some.inj chosen
      refine ⟨isChild_iff.mpr (Or.inr rfl), right, found', ?_⟩
      intro other y edge atOther
      rcases isChild_iff.mp edge with rfl | rfl
      · rw [← Option.some.inj (found.symm.trans atOther)]
        exact not_lt.mp more
      · exact (Option.some.inj (found'.symm.trans atOther)).le

section Sink

variable {start pos : ℕ} {heap : List α}

theorem Sinking.move (sinking : Sinking start heap pos) (under : start ≤ pos) {item : α} (here : heap[pos]? = some item)
    {child : ℕ} (chosen : smallerChild heap pos = some child) : Sinking start (swap heap pos child) child := by
  obtain ⟨isChild, least, atLeast, smallest⟩ := smallerChild_some chosen
  have moved := getElem?_swap here atLeast
  have notHere : child ≠ pos := isChild.lt.ne'
  constructor
  · intro parent other x y from_ edge otherDown parentDown atParent atOther
    rw [moved, if_neg parentDown] at atParent
    rw [moved, if_neg otherDown] at atOther
    by_cases otherHere : other = pos
    · have notParent : parent ≠ pos := fun same => absurd edge.lt (by omega)
      rw [if_neg notParent] at atParent
      rw [if_pos otherHere, Option.some.injEq] at atOther
      rw [← atOther]
      exact sinking.across _ _ _ _ from_ (otherHere ▸ edge) isChild atParent atLeast
    · rw [if_neg otherHere] at atOther
      by_cases parentHere : parent = pos
      · rw [if_pos parentHere, Option.some.injEq] at atParent
        rw [← atParent]
        exact smallest other y (parentHere ▸ edge) atOther
      · rw [if_neg parentHere] at atParent
        exact sinking.apart _ _ _ _ from_ edge otherHere parentHere atParent atOther
  · intro parent other x y _ upper edge atParent atOther
    obtain rfl := upper.unique isChild
    have notParent : other ≠ parent := (isChild.lt.trans edge.lt).ne'
    rw [moved, if_neg (Ne.symm notHere), if_pos rfl, Option.some.injEq] at atParent
    rw [moved, if_neg edge.lt.ne', if_neg notParent] at atOther
    rw [← atParent]
    exact sinking.apart _ _ _ _ (under.trans isChild.lt.le) edge notParent notHere atLeast atOther

theorem sink_rising {fuel : ℕ} (sinking : Sinking start heap pos) (under : Under start pos)
    (enough : heap.length ≤ fuel + pos) :
    Rising start (sink fuel heap pos).1 (sink fuel heap pos).2 ∧ Under start (sink fuel heap pos).2 := by
  have leaf : (∀ child, IsChild child pos → heap[child]? = none) → Rising start heap pos := by
    intro none
    refine ⟨?_, sinking.across⟩
    intro parent child x y from_ edge notHere atParent atChild
    by_cases parentHere : parent = pos
    · rw [none child (parentHere ▸ edge)] at atChild
      cases atChild
    · exact sinking.apart parent child x y from_ edge notHere parentHere atParent atChild
  induction fuel generalizing heap pos with
  | zero =>
    refine ⟨leaf fun child edge => List.getElem?_eq_none_iff.mpr ?_, under⟩
    have := edge.lt
    omega
  | succ fuel ih =>
    unfold sink
    split
    · rename_i none
      exact ⟨leaf fun child edge => smallerChild_none none edge, under⟩
    · rename_i child chosen
      obtain ⟨isChild, least, atLeast, _⟩ := smallerChild_some chosen
      obtain ⟨inside, _⟩ := List.getElem?_eq_some_iff.mp atLeast
      have here := List.getElem?_eq_getElem (isChild.lt.trans inside)
      have length := (swap_perm heap pos child).length_eq
      have down := sinking.move under.le here chosen
      apply ih down (.child under isChild) (by have := isChild.lt; omega)
      intro none
      refine ⟨?_, down.across⟩
      intro parent other x y from_ edge notHere atParent atOther
      by_cases parentHere : parent = child
      · rw [none other (parentHere ▸ edge)] at atOther
        cases atOther
      · exact down.apart parent other x y from_ edge notHere parentHere atParent atOther

theorem siftup_ordered (ordered : OrderedFrom (start + 1) heap) : OrderedFrom start (siftup heap start) := by
  have sinking : Sinking start heap start := by
    constructor
    · intro parent child x y from_ edge _ notHere atParent atChild
      exact ordered parent child x y (by omega) edge atParent atChild
    · intro parent _ _ _ from_ edge
      exact absurd edge.lt (not_lt.mpr from_)
  obtain ⟨rising, under⟩ := sink_rising sinking .refl (Nat.le_add_right heap.length _)
  exact siftdown_ordered rising under (le_refl _)

end Sink

/-! ### The operations -/

theorem heap_nil : Heap ([] : List α) := by
  intro parent child x y _ _ atParent
  cases atParent

theorem heappush_heap {heap : List α} (ordered : Heap heap) (item : α) : Heap (heappush heap item) := by
  refine siftdown_ordered ?_ ?_ (le_refl _)
  · constructor
    · intro parent child x y from_ edge notLast atParent atChild
      obtain ⟨inside, _⟩ := List.getElem?_eq_some_iff.mp atChild
      rw [List.length_append, List.length_singleton] at inside
      have before : child < heap.length := by omega
      rw [List.getElem?_append_left before] at atChild
      rw [List.getElem?_append_left (edge.lt.trans before)] at atParent
      exact ordered parent child x y from_ edge atParent atChild
    · intro parent child x y _ _ edge _ atChild
      obtain ⟨inside, _⟩ := List.getElem?_eq_some_iff.mp atChild
      rw [List.length_append, List.length_singleton] at inside
      exact absurd edge.lt (by omega)
  · have all : ∀ n, ∀ pos ≤ n, Under 0 pos := by
      intro n
      induction n with
      | zero =>
        intro pos least
        obtain rfl := Nat.le_zero.mp least
        exact .refl
      | succ n ih =>
        intro pos bound
        rcases Nat.eq_zero_or_pos pos with rfl | positive
        · exact .refl
        · exact .child (ih ((pos - 1) / 2) (by omega)) ⟨positive, rfl⟩
    exact all _ _ (le_refl _)

/-- The root of a heap is its least item. -/
theorem Heap.root_le {heap : List α} (ordered : Heap heap) {root : α} (first : heap[0]? = some root) :
    ∀ item ∈ heap, root ≤ item := by
  have all : ∀ (n : ℕ) (item : α), heap[n]? = some item → root ≤ item := by
    intro n
    induction n using Nat.strong_induction_on with
    | _ n ih =>
      intro item found
      rcases Nat.eq_zero_or_pos n with rfl | positive
      · exact (Option.some.inj (first.symm.trans found)).le
      · have edge : IsChild n ((n - 1) / 2) := ⟨positive, rfl⟩
        obtain ⟨inside, _⟩ := List.getElem?_eq_some_iff.mp found
        have above := List.getElem?_eq_getElem (edge.lt.trans inside)
        exact (ih _ edge.lt _ above).trans (ordered _ _ _ _ (Nat.zero_le _) edge above found)
  intro item member
  obtain ⟨n, found⟩ := List.getElem?_of_mem member
  exact all n item found

theorem heappop_heap {heap rest : List α} {item : α} (ordered : Heap heap) (popped : heappop heap = some (item, rest)) :
    Heap rest ∧ ∀ other ∈ heap, item ≤ other := by
  unfold heappop at popped
  cases last : heap.getLast? with
  | none => simp [last] at popped
  | some lastelt =>
    have whole : heap.dropLast ++ [lastelt] = heap := List.dropLast_append_getLast? lastelt last
    cases front : heap.dropLast with
    | nil =>
      simp only [last, front, Option.some.injEq, Prod.mk.injEq] at popped
      obtain ⟨rfl, rfl⟩ := popped
      refine ⟨heap_nil, ordered.root_le ?_⟩
      rw [← whole, front]
      rfl
    | cons top others =>
      simp only [last, front, Option.some.injEq, Prod.mk.injEq] at popped
      obtain ⟨rfl, rfl⟩ := popped
      rw [front] at whole
      constructor
      · show OrderedFrom 0 _
        apply siftup_ordered
        -- behind the root, the shorter list agrees with the heap
        have same : ∀ (n : ℕ) (x : α), 0 < n → (lastelt :: others)[n]? = some x → heap[n]? = some x := by
          intro n x positive found
          obtain ⟨n, rfl⟩ := Nat.exists_eq_add_of_lt positive
          obtain ⟨inside, _⟩ := List.getElem?_eq_some_iff.mp found
          rw [← whole, List.getElem?_append_left (by simpa using inside)]
          simpa using found
        intro parent child x y from_ edge atParent atChild
        exact ordered parent child x y (Nat.zero_le _) edge (same _ _ from_ atParent)
          (same _ _ (Nat.lt_of_lt_of_le from_ edge.lt.le) atChild)
      · apply ordered.root_le
        rw [← whole]
        rfl

theorem heapify_heap (heap : List α) : Heap (heapify heap) := by
  have fold : ∀ (k : ℕ) (h : List α), OrderedFrom k h → Heap ((List.range k).reverse.foldl siftup h) := by
    intro k
    induction k with
    | zero => exact fun h ordered => ordered
    | succ k ih =>
      intro h ordered
      rw [List.range_succ, List.reverse_append, List.reverse_singleton, List.singleton_append, List.foldl_cons]
      exact ih _ (siftup_ordered ordered)
  apply fold _ heap
  intro parent child x y from_ edge _ atChild
  obtain ⟨inside, _⟩ := List.getElem?_eq_some_iff.mp atChild
  rcases isChild_iff.mp edge with rfl | rfl <;> omega

end TaskRunner.Base.Heapq
