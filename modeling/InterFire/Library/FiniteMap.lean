import Mathlib.Data.List.AList

/-!
# Finite maps with single bindings

A finite map is an association list whose keys are distinct, so a map with two bindings for one
key cannot be built. The order of the bindings is the order in which an iteration visits them; it
carries no meaning, and every result that quantifies over a map quantifies over that order too.

The operations are those of a mutable hash table: `get`, `insert`, `remove`, `update` (change a
present value in place), `rename` (move a value to another key), `retain` (keep the bindings that
satisfy a test) and `len`. Each operation
has one lemma that says what `get` returns afterwards (`get_insert`, `get_remove`, `get_update`,
`get_retain`), and proofs about maps use those lemmas rather than the lists.
-/

set_option autoImplicit false
set_option relaxedAutoImplicit false

universe u v

/-- A finite map from keys to values, as an association list with distinct keys. -/
def FiniteMap (κ : Type u) (ν : Type v) : Type (max u v) := AList (fun _ : κ ↦ ν)

namespace FiniteMap

variable {κ : Type u} {ν : Type v}

/-- The map with no binding. -/
def empty : FiniteMap κ ν := (∅ : AList (fun _ : κ ↦ ν))

/-- The bindings in iteration order. -/
def entries (map : FiniteMap κ ν) : List (κ × ν) :=
  (AList.entries map).map fun binding ↦ (binding.1, binding.2)

/-- The keys in iteration order. -/
def keys (map : FiniteMap κ ν) : List κ := AList.keys map

/-- The values in iteration order. -/
def values (map : FiniteMap κ ν) : List ν := map.entries.map Prod.snd

/-- The number of bindings. -/
def len (map : FiniteMap κ ν) : ℕ := map.keys.length

/-- Keep the bindings that satisfy a test. -/
def retain (map : FiniteMap κ ν) (keep : κ → ν → Bool) : FiniteMap κ ν :=
  ⟨(AList.entries map).filter fun binding ↦ keep binding.1 binding.2,
    map.nodupKeys.sublist List.filter_sublist⟩

variable [DecidableEq κ]

instance [DecidableEq ν] : DecidableEq (FiniteMap κ ν) :=
  inferInstanceAs (DecidableEq (AList (fun _ : κ ↦ ν)))

/-- The value bound to a key. -/
def get (map : FiniteMap κ ν) (key : κ) : Option ν := AList.lookup key map

/-- Bind a key, replacing an earlier binding of it. -/
def insert (map : FiniteMap κ ν) (key : κ) (value : ν) : FiniteMap κ ν :=
  AList.insert key value map

/-- Drop the binding of a key. -/
def remove (map : FiniteMap κ ν) (key : κ) : FiniteMap κ ν := AList.erase key map

/-- Change the value of a present key in place. -/
def update (map : FiniteMap κ ν) (key : κ) (change : ν → ν) : FiniteMap κ ν :=
  match map.get key with
  | some value => map.insert key (change value)
  | none => map

/-- Move the value of a key to another one, whose value it replaces. -/
def rename (map : FiniteMap κ ν) (source target : κ) : Option (FiniteMap κ ν) :=
  (map.get source).map fun value ↦ (map.remove source).insert target value

/-! ### What a lookup returns after each operation -/

@[simp] theorem get_empty (key : κ) : (empty : FiniteMap κ ν).get key = none :=
  AList.lookup_empty key

@[simp] theorem get_insert_self (map : FiniteMap κ ν) (key : κ) (value : ν) :
    (map.insert key value).get key = some value :=
  AList.lookup_insert map

theorem get_insert_of_ne (map : FiniteMap κ ν) {key other : κ} (hne : other ≠ key) (value : ν) :
    (map.insert key value).get other = map.get other :=
  AList.lookup_insert_ne hne

/-- A lookup after an insertion. -/
theorem get_insert (map : FiniteMap κ ν) (key other : κ) (value : ν) :
    (map.insert key value).get other = if other = key then some value else map.get other := by
  split_ifs with hkey
  · rw [hkey, get_insert_self]
  · exact get_insert_of_ne map hkey value

@[simp] theorem get_remove_self (map : FiniteMap κ ν) (key : κ) :
    (map.remove key).get key = none :=
  AList.lookup_erase key map

theorem get_remove_of_ne (map : FiniteMap κ ν) {key other : κ} (hne : other ≠ key) :
    (map.remove key).get other = map.get other :=
  AList.lookup_erase_ne hne

/-- A lookup after a removal. -/
theorem get_remove (map : FiniteMap κ ν) (key other : κ) :
    (map.remove key).get other = if other = key then none else map.get other := by
  split_ifs with hkey
  · rw [hkey, get_remove_self]
  · exact get_remove_of_ne map hkey

/-- A lookup after an update in place. -/
theorem get_update (map : FiniteMap κ ν) (key other : κ) (change : ν → ν) :
    (map.update key change).get other =
      if other = key then (map.get other).map change else map.get other := by
  unfold update
  split
  · next value hvalue =>
    rw [get_insert]
    split_ifs with hkey
    · rw [hkey, hvalue, Option.map_some]
    · rfl
  · next hnone =>
    split_ifs with hkey
    · rw [hkey, hnone, Option.map_none]
    · rfl

theorem rename_of_get {map : FiniteMap κ ν} {source : κ} {value : ν}
    (hget : map.get source = some value) (target : κ) :
    map.rename source target = some ((map.remove source).insert target value) := by
  rw [rename, hget, Option.map_some]

/-- A second insertion of a key replaces the first. -/
theorem insert_insert (map : FiniteMap κ ν) (key : κ) (first second : ν) :
    (map.insert key first).insert key second = map.insert key second :=
  AList.insert_insert map

/-- A key is bound to a value exactly when the pair is among the bindings. -/
theorem get_eq_some_iff_mem_entries (map : FiniteMap κ ν) (key : κ) (value : ν) :
    map.get key = some value ↔ (key, value) ∈ map.entries := by
  have hlookup : map.get key = some value ↔
      (⟨key, value⟩ : Sigma fun _ : κ ↦ ν) ∈ AList.entries map :=
    AList.mem_lookup_iff
  rw [hlookup, entries, List.mem_map]
  constructor
  · intro hmem
    exact ⟨⟨key, value⟩, hmem, rfl⟩
  · rintro ⟨⟨other, bound⟩, hmem, hpair⟩
    obtain ⟨rfl, rfl⟩ := Prod.mk.inj hpair
    exact hmem

theorem mem_values_iff (map : FiniteMap κ ν) (value : ν) :
    value ∈ map.values ↔ ∃ key, map.get key = some value := by
  simp only [values, List.mem_map, get_eq_some_iff_mem_entries, Prod.exists, exists_eq_right]

/-- A lookup after a retention keeps exactly the values that pass the test. -/
theorem get_retain (map : FiniteMap κ ν) (keep : κ → ν → Bool) (key : κ) :
    (map.retain keep).get key = (map.get key).filter (keep key) := by
  ext value
  rw [get_eq_some_iff_mem_entries, Option.filter_eq_some_iff, get_eq_some_iff_mem_entries]
  simp only [entries, retain, List.mem_map, List.mem_filter, Prod.mk.injEq]
  constructor
  · rintro ⟨binding, ⟨hmem, hkeep⟩, rfl, rfl⟩
    exact ⟨⟨binding, hmem, rfl, rfl⟩, hkeep⟩
  · rintro ⟨⟨binding, hmem, rfl, rfl⟩, hkeep⟩
    exact ⟨binding, ⟨hmem, hkeep⟩, rfl, rfl⟩

omit [DecidableEq κ] in
/-- A retention that every binding passes leaves the map. Assumes: every binding passes. -/
theorem retain_of_forall {keep : κ → ν → Bool} (hkeep : ∀ key value, keep key value = true)
    (map : FiniteMap κ ν) : map.retain keep = map := by
  refine AList.ext ?_
  exact List.filter_eq_self.mpr fun binding _ ↦ hkeep binding.1 binding.2

theorem mem_keys_iff (map : FiniteMap κ ν) (key : κ) :
    key ∈ map.keys ↔ (map.get key).isSome :=
  AList.lookup_isSome.symm

/-! ### Making room in a bounded map -/

/-- Remove the oldest keys of an order queue from a map until it has fewer than `capacity` bindings;
when the queue runs out first, clear the map. -/
def makeRoom (capacity : ℕ) : List κ → FiniteMap κ ν → List κ × FiniteMap κ ν
  | [], map => if map.len < capacity then ([], map) else ([], empty)
  | oldest :: rest, map =>
    if map.len < capacity then (oldest :: rest, map) else makeRoom capacity rest (map.remove oldest)

/-- A map below capacity is left alone. Assumes: fewer than `capacity` bindings. -/
theorem makeRoom_of_lt {capacity : ℕ} (order : List κ) {map : FiniteMap κ ν}
    (hlt : map.len < capacity) : makeRoom capacity order map = (order, map) := by
  cases order <;> simp [makeRoom, hlt]

/-- Making room invents no binding. -/
theorem get_of_get_makeRoom {capacity : ℕ} (order : List κ) (map : FiniteMap κ ν) {key : κ}
    {value : ν} (hget : (makeRoom capacity order map).2.get key = some value) :
    map.get key = some value := by
  induction order generalizing map with
  | nil =>
    unfold makeRoom at hget
    split_ifs at hget with hlt
    · exact hget
    · rw [get_empty] at hget
      cases hget
  | cons oldest rest ih =>
    unfold makeRoom at hget
    split_ifs at hget with hlt
    · exact hget
    · have hremoved := ih (map.remove oldest) hget
      rw [get_remove] at hremoved
      split_ifs at hremoved
      exact hremoved

/-- A binding after the value of a key was changed in place, in a map that has made room for the key
when it was absent. It is the changed value of the key, or was there before. Assumes: it is there. -/
theorem get_of_get_update_makeRoom {capacity : ℕ} {order : List κ} {map : FiniteMap κ ν}
    {key other : κ} {fresh value : ν} {change : ν → ν}
    (hget : ((if (map.get key).isSome then (order, map)
      else ((makeRoom capacity order map).1 ++ [key],
        (makeRoom capacity order map).2.insert key fresh)).2.update key change).get other =
          some value) :
    (other = key ∧ ∃ before, (before = fresh ∨ map.get key = some before) ∧
      value = change before) ∨ map.get other = some value := by
  rw [get_update] at hget
  by_cases hkey : other = key
  · subst hkey
    rw [if_pos rfl] at hget
    obtain ⟨before, hbefore, rfl⟩ := Option.map_eq_some_iff.mp hget
    refine .inl ⟨rfl, before, ?_, rfl⟩
    split_ifs at hbefore
    · exact .inr hbefore
    · rw [get_insert_self] at hbefore
      exact .inl (Option.some.inj hbefore).symm
  · rw [if_neg hkey] at hget
    split_ifs at hget
    · exact .inr hget
    · rw [get_insert_of_ne _ hkey] at hget
      exact .inr (get_of_get_makeRoom order map hget)

/-- A removal does not lengthen a map. -/
theorem len_remove_le (map : FiniteMap κ ν) (key : κ) : (map.remove key).len ≤ map.len := by
  have hkeys : (map.remove key).keys = map.keys.erase key := AList.keys_erase key map
  rw [len, len, hkeys]
  exact List.length_erase_le

/-- A removal drops at most one binding. -/
theorem len_le_remove (map : FiniteMap κ ν) (key : κ) : map.len ≤ (map.remove key).len + 1 := by
  have hkeys : (map.remove key).keys = map.keys.erase key := AList.keys_erase key map
  rw [len, len, hkeys, List.length_erase]
  split_ifs <;> omega

end FiniteMap
