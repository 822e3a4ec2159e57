import Mathlib

/-!
Insertion-ordered dictionaries: setting a known key changes its value in place, setting a new
key appends it, erasing a key forgets its place.
-/

namespace TaskRunner.Base

/-- Keys with their values, oldest key first. No key occurs twice. -/
structure Dict (κ ν : Type*) where
  entries : List (κ × ν)
  nodup : (entries.map Prod.fst).Nodup

namespace Dict

variable {κ ν : Type*} [DecidableEq κ]

omit [DecidableEq κ] in
@[ext] theorem ext {d e : Dict κ ν} (same : d.entries = e.entries) : d = e := by
  cases d; cases e; simpa using same

def empty : Dict κ ν := ⟨[], List.nodup_nil⟩

instance : Inhabited (Dict κ ν) := ⟨empty⟩

def keys (d : Dict κ ν) : List κ := d.entries.map Prod.fst

def values (d : Dict κ ν) : List ν := d.entries.map Prod.snd

/-- Look a key up among entries. -/
def find (k : κ) : List (κ × ν) → Option ν
  | [] => none
  | (k', v) :: rest => if k' = k then some v else find k rest

/-- Replace the value of a key among entries, or append the key. -/
def place (k : κ) (v : ν) : List (κ × ν) → List (κ × ν)
  | [] => [(k, v)]
  | (k', v') :: rest => if k' = k then (k', v) :: rest else (k', v') :: place k v rest

def get? (d : Dict κ ν) (k : κ) : Option ν := find k d.entries

def getD (d : Dict κ ν) (k : κ) (default : ν) : ν := (d.get? k).getD default

theorem map_fst_place (k : κ) (v : ν) (entries : List (κ × ν)) :
    (place k v entries).map Prod.fst =
      if k ∈ entries.map Prod.fst then entries.map Prod.fst else entries.map Prod.fst ++ [k] := by
  induction entries with
  | nil => simp [place]
  | cons entry rest ih =>
    obtain ⟨k', v'⟩ := entry
    by_cases same : k' = k
    · simp [place, same]
    · simp only [place, if_neg same, List.map_cons, ih, List.mem_cons, Ne.symm same, false_or]
      split <;> simp

theorem nodup_place (k : κ) (v : ν) {entries : List (κ × ν)} (nodup : (entries.map Prod.fst).Nodup) :
    ((place k v entries).map Prod.fst).Nodup := by
  rw [map_fst_place]
  split
  · exact nodup
  · rename_i absent
    exact List.nodup_append.mpr ⟨nodup, List.nodup_singleton k, by
      intro a ha b hb same
      rw [List.mem_singleton.mp hb] at same
      exact absent (same ▸ ha)⟩

def set (d : Dict κ ν) (k : κ) (v : ν) : Dict κ ν := ⟨place k v d.entries, nodup_place k v d.nodup⟩

def erase (d : Dict κ ν) (k : κ) : Dict κ ν :=
  ⟨d.entries.filter (fun entry => entry.1 ≠ k), d.nodup.sublist (List.filter_sublist.map _)⟩

instance : Membership κ (Dict κ ν) := ⟨fun d k => k ∈ d.keys⟩

instance (d : Dict κ ν) (k : κ) : Decidable (k ∈ d) := inferInstanceAs (Decidable (k ∈ d.keys))

/-! ### Lookups -/

@[simp] theorem get?_empty (k : κ) : (empty : Dict κ ν).get? k = none := rfl

omit [DecidableEq κ] in
@[simp] theorem keys_empty : (empty : Dict κ ν).keys = [] := rfl

omit [DecidableEq κ] in
@[simp] theorem values_empty : (empty : Dict κ ν).values = [] := rfl

theorem find_cons_self (k : κ) (v : ν) (rest : List (κ × ν)) : find k ((k, v) :: rest) = some v := if_pos rfl

theorem find_cons_ne {k k' : κ} (different : k' ≠ k) (v : ν) (rest : List (κ × ν)) :
    find k ((k', v) :: rest) = find k rest := if_neg different

theorem find_place_self (k : κ) (v : ν) (entries : List (κ × ν)) : find k (place k v entries) = some v := by
  induction entries with
  | nil => simp [place, find]
  | cons entry rest ih => by_cases same : entry.1 = k <;> simp [place, find, same, ih]

theorem find_place_ne {k k' : κ} (different : k' ≠ k) (v : ν) (entries : List (κ × ν)) :
    find k' (place k v entries) = find k' entries := by
  induction entries with
  | nil => simp [place, find, Ne.symm different]
  | cons entry rest ih =>
    by_cases same : entry.1 = k
    · simp [place, find, same, Ne.symm different]
    · simp only [place, if_neg same, find, ih]

@[simp] theorem get?_set_self (d : Dict κ ν) (k : κ) (v : ν) : (d.set k v).get? k = some v :=
  find_place_self k v d.entries

theorem get?_set_ne (d : Dict κ ν) {k k' : κ} (different : k' ≠ k) (v : ν) :
    (d.set k v).get? k' = d.get? k' := find_place_ne different v d.entries

theorem get?_set (d : Dict κ ν) (k k' : κ) (v : ν) :
    (d.set k v).get? k' = if k' = k then some v else d.get? k' := by
  by_cases same : k' = k
  · subst same; simp
  · simp [same, get?_set_ne d same v]

theorem find_filter_self (k : κ) (entries : List (κ × ν)) :
    find k (entries.filter (fun entry => entry.1 ≠ k)) = none := by
  induction entries with
  | nil => rfl
  | cons entry rest ih => by_cases same : entry.1 = k <;> simp_all [find]

theorem find_filter_ne {k k' : κ} (different : k' ≠ k) (entries : List (κ × ν)) :
    find k' (entries.filter (fun entry => entry.1 ≠ k)) = find k' entries := by
  induction entries with
  | nil => rfl
  | cons entry rest ih =>
    by_cases same : entry.1 = k
    · have other : ¬ entry.1 = k' := fun h => different (h.symm.trans same)
      simpa [find, List.filter_cons, same, other, Ne.symm different] using ih
    · simp only [List.filter_cons, same, ne_eq, not_false_eq_true, decide_true, if_true, find]
      split
      · rfl
      · simpa using ih

@[simp] theorem get?_erase_self (d : Dict κ ν) (k : κ) : (d.erase k).get? k = none :=
  find_filter_self k d.entries

theorem get?_erase_ne (d : Dict κ ν) {k k' : κ} (different : k' ≠ k) : (d.erase k).get? k' = d.get? k' :=
  find_filter_ne different d.entries

theorem get?_erase (d : Dict κ ν) (k k' : κ) :
    (d.erase k).get? k' = if k' = k then none else d.get? k' := by
  by_cases same : k' = k
  · subst same; simp
  · simp [same, get?_erase_ne d same]

/-! ### Keys -/

theorem find_isSome (k : κ) (entries : List (κ × ν)) :
    (find k entries).isSome ↔ k ∈ entries.map Prod.fst := by
  induction entries with
  | nil => simp [find]
  | cons entry rest ih =>
    by_cases same : entry.1 = k
    · simp [find, same]
    · simp [find, same, ih, Ne.symm same]

theorem mem_keys_iff (d : Dict κ ν) (k : κ) : k ∈ d.keys ↔ (d.get? k).isSome :=
  (find_isSome k d.entries).symm

theorem mem_iff (d : Dict κ ν) (k : κ) : k ∈ d ↔ (d.get? k).isSome := mem_keys_iff d k

theorem get?_eq_none (d : Dict κ ν) (k : κ) : d.get? k = none ↔ k ∉ d := by
  rw [mem_iff, Option.not_isSome_iff_eq_none]

theorem mem_of_get? {d : Dict κ ν} {k : κ} {v : ν} (found : d.get? k = some v) : k ∈ d := by
  rw [mem_iff, found]; rfl

theorem exists_of_mem {d : Dict κ ν} {k : κ} (known : k ∈ d) : ∃ v, d.get? k = some v :=
  Option.isSome_iff_exists.mp ((d.mem_iff k).mp known)

omit [DecidableEq κ] in
theorem nodup_keys (d : Dict κ ν) : d.keys.Nodup := d.nodup

theorem mem_erase (d : Dict κ ν) (k k' : κ) : k' ∈ d.erase k ↔ k' ≠ k ∧ k' ∈ d := by
  rw [mem_iff, mem_iff, get?_erase]
  split <;> simp_all

theorem mem_set (d : Dict κ ν) (k k' : κ) (v : ν) : k' ∈ d.set k v ↔ k' = k ∨ k' ∈ d := by
  rw [mem_iff, mem_iff, get?_set]
  split <;> simp_all

theorem erase_of_notMem {d : Dict κ ν} {k : κ} (absent : k ∉ d) : d.erase k = d := by
  apply ext
  refine List.filter_eq_self.mpr fun entry member => decide_eq_true ?_
  rintro rfl
  exact absent (List.mem_map_of_mem member)

/-! ### Entries and values -/

theorem find_of_mem {k : κ} {v : ν} {entries : List (κ × ν)} (nodup : (entries.map Prod.fst).Nodup)
    (member : (k, v) ∈ entries) : find k entries = some v := by
  induction entries with
  | nil => cases member
  | cons entry rest ih =>
    simp only [List.map_cons, List.nodup_cons] at nodup
    rcases List.mem_cons.mp member with rfl | later
    · simp [find]
    · have other : ¬ entry.1 = k := fun same => nodup.1 (same ▸ List.mem_map_of_mem (f := Prod.fst) later)
      simp only [find, if_neg other, ih nodup.2 later]

theorem mem_of_find {k : κ} {v : ν} {entries : List (κ × ν)} (found : find k entries = some v) :
    (k, v) ∈ entries := by
  induction entries with
  | nil => cases found
  | cons entry rest ih =>
    obtain ⟨k', v'⟩ := entry
    by_cases same : k' = k
    · simp only [find, if_pos same, Option.some.injEq] at found
      simp [same, found]
    · simp only [find, if_neg same] at found
      exact List.mem_cons_of_mem _ (ih found)

theorem mem_entries_iff (d : Dict κ ν) (k : κ) (v : ν) : (k, v) ∈ d.entries ↔ d.get? k = some v :=
  ⟨find_of_mem d.nodup, mem_of_find⟩

/-- A new key comes last. -/
theorem entries_set_new {d : Dict κ ν} {k : κ} (new : k ∉ d) (v : ν) : (d.set k v).entries = d.entries ++ [(k, v)] := by
  have last : ∀ entries : List (κ × ν), k ∉ entries.map Prod.fst → place k v entries = entries ++ [(k, v)] := by
    intro entries
    induction entries with
    | nil => exact fun _ => rfl
    | cons entry rest ih =>
      intro absent
      simp only [List.map_cons, List.mem_cons, not_or] at absent
      rw [place, if_neg (Ne.symm absent.1), ih absent.2]
      rfl
  exact last d.entries new

/-- The dictionary of the entries; of a key that comes again, the last value counts. -/
def ofEntries (entries : List (κ × ν)) : Dict κ ν := entries.foldl (fun d entry => d.set entry.1 entry.2) empty

theorem entries_foldl_set (d : Dict κ ν) (rest : List (κ × ν)) (nodup : (rest.map Prod.fst).Nodup)
    (new : ∀ entry ∈ rest, entry.1 ∉ d) :
    (rest.foldl (fun d entry => d.set entry.1 entry.2) d).entries = d.entries ++ rest := by
  induction rest generalizing d with
  | nil => exact (List.append_nil _).symm
  | cons entry rest ih =>
    obtain ⟨absent, distinct⟩ := List.nodup_cons.mp nodup
    rw [List.foldl_cons, ih _ distinct, entries_set_new (new entry List.mem_cons_self), List.append_assoc]
    · rfl
    · intro other member known
      rcases (mem_set ..).mp known with same | old
      · exact absent (same ▸ List.mem_map_of_mem member)
      · exact new other (List.mem_cons_of_mem _ member) old

@[simp] theorem ofEntries_entries (d : Dict κ ν) : ofEntries d.entries = d := by
  apply ext
  exact (entries_foldl_set empty d.entries d.nodup fun entry _ known => by cases known).trans (List.nil_append _)


theorem values_eq (d : Dict κ ν) (default : ν) : d.values = d.keys.map (fun k => d.getD k default) := by
  simp only [values, keys, List.map_map]
  apply List.map_congr_left
  intro entry member
  have found := (d.mem_entries_iff entry.1 entry.2).mp member
  simp [getD, found]

section MapValues

variable {μ : Type*}

omit [DecidableEq κ] in
theorem map_fst_map (f : ν → μ) (entries : List (κ × ν)) :
    (entries.map fun entry => (entry.1, f entry.2)).map Prod.fst = entries.map Prod.fst := by
  rw [List.map_map]
  rfl

/-- The comprehension `{key: f(value) for key, value in d.items()}`. -/
def mapValues (f : ν → μ) (d : Dict κ ν) : Dict κ μ :=
  ⟨d.entries.map fun entry => (entry.1, f entry.2), by rw [map_fst_map]; exact d.nodup⟩

omit [DecidableEq κ] in
theorem mapValues_mapValues {f : ν → μ} {g : μ → ν} {d : Dict κ ν} (undone : ∀ v ∈ d.values, g (f v) = v) :
    (d.mapValues f).mapValues g = d := by
  apply ext
  show (d.entries.map _).map _ = d.entries
  rw [List.map_map]
  have same : ∀ entry ∈ d.entries, (entry.1, g (f entry.2)) = entry := fun entry member =>
    Prod.ext rfl (undone entry.2 (List.mem_map_of_mem member))
  exact (List.map_congr_left same).trans (List.map_id _)

end MapValues

/-- A sum over the values after setting a key: the old value goes, the new one comes. -/
theorem sum_values_set (f : ν → ℕ) (d : Dict κ ν) (k : κ) (v : ν) :
    ((d.set k v).values.map f).sum + ((d.get? k).map f).getD 0 = (d.values.map f).sum + f v := by
  have entries : ∀ entries : List (κ × ν),
      ((place k v entries).map (fun entry => f entry.2)).sum + ((find k entries).map f).getD 0 =
        (entries.map (fun entry => f entry.2)).sum + f v := by
    intro entries
    induction entries with
    | nil => simp [place, find]
    | cons entry rest ih =>
      by_cases same : entry.1 = k
      · simp [place, find, same]; omega
      · simp only [place, find, if_neg same, List.map_cons, List.sum_cons]; omega
  simpa [values, set, get?, List.map_map, Function.comp_def] using entries d.entries

/-- The same for what the entries hold, up to order. -/
theorem flatMap_set_perm {α : Type*} (d : Dict κ ν) (f : κ × ν → List α) (k : κ) (v : ν) :
    ((d.set k v).entries.flatMap f ++ ((d.get? k).map fun old => f (k, old)).getD []).Perm
      (f (k, v) ++ d.entries.flatMap f) := by
  have entries : ∀ entries : List (κ × ν),
      ((place k v entries).flatMap f ++ ((find k entries).map fun old => f (k, old)).getD []).Perm
        (f (k, v) ++ entries.flatMap f) := by
    intro entries
    induction entries with
    | nil => simp [place, find]
    | cons entry rest ih =>
      obtain ⟨k', v'⟩ := entry
      by_cases same : k' = k
      · subst same
        simp only [place, find, if_true, Option.map_some, Option.getD_some, List.flatMap_cons, List.append_assoc]
        exact List.perm_append_comm.append_left _
      · simp only [place, find, if_neg same, List.flatMap_cons, List.append_assoc]
        apply (ih.append_left _).trans
        rw [← List.append_assoc, ← List.append_assoc]
        exact List.perm_append_comm.append_right _
  exact entries d.entries

/-- What an erased key held goes, the rest stays. -/
theorem flatMap_erase_perm {α : Type*} (d : Dict κ ν) (f : κ × ν → List α) {k : κ} {v : ν} (found : d.get? k = some v) :
    (d.entries.flatMap f).Perm (f (k, v) ++ (d.erase k).entries.flatMap f) := by
  have entries : ∀ entries : List (κ × ν), (entries.map Prod.fst).Nodup → find k entries = some v →
      (entries.flatMap f).Perm (f (k, v) ++ (entries.filter fun entry => entry.1 ≠ k).flatMap f) := by
    intro entries nodup found
    induction entries with
    | nil => cases found
    | cons entry rest ih =>
      obtain ⟨k', v'⟩ := entry
      rw [List.map_cons, List.nodup_cons] at nodup
      by_cases same : k' = k
      · subst same
        rw [find_cons_self] at found
        obtain rfl := Option.some.inj found
        have others : (rest.filter fun entry => entry.1 ≠ k') = rest := by
          refine List.filter_eq_self.mpr fun other member => decide_eq_true fun again => ?_
          exact nodup.1 (List.mem_map.mpr ⟨other, member, again⟩)
        rw [List.filter_cons_of_neg (by simp), others, List.flatMap_cons]
      · rw [find_cons_ne same] at found
        rw [List.filter_cons_of_pos (by simp [same]), List.flatMap_cons, List.flatMap_cons]
        apply ((ih nodup.2 found).append_left (f (k', v'))).trans
        rw [← List.append_assoc, ← List.append_assoc]
        exact List.perm_append_comm.append_right _
  exact entries d.entries d.nodup found

theorem sum_values_erase (f : ν → ℕ) (d : Dict κ ν) {k : κ} {v : ν} (found : d.get? k = some v) :
    ((d.erase k).values.map f).sum + f v = (d.values.map f).sum := by
  have each : ∀ e : Dict κ ν, (e.values.map f).sum = (e.entries.flatMap fun entry => [f entry.2]).sum := by
    intro e
    rw [values, List.map_map, List.map_eq_flatMap]
    rfl
  have moved := (d.flatMap_erase_perm (fun entry => [f entry.2]) found).sum_eq
  rw [List.sum_append, List.sum_singleton] at moved
  rw [each, each, moved, Nat.add_comm]

end Dict

end TaskRunner.Base
