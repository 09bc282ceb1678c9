import Mathlib.Data.List.Perm.Basic
import InterFire.Library.FiniteMap
import InterFire.Library.Run

/-!
# Maps with an order of arrival

A bounded map keeps a queue of its keys beside it. `OrderedBy` says that the queue holds the keys of
the map, each once. A new key joins at the back, and in a full map the key at the front leaves for
it: `store_cases` are the ways to store a value, `orderedBy_store` and `len_store_le`
what they keep, `order_store` what becomes of the queue, and `front_of_lost` says which value may be
lost. A queue with the keys of the map lists each of them (`perm_keys`, `map_filterMap`) and does not
run out while room is made (`not_runsOut`); `TightBy` says all of this about a map within its
capacity.

Along a run a key may leave such a queue and join it again. `inOrder_stateAt` says that the queue
stands in the order of the last arrivals of its keys.
-/

set_option autoImplicit false
set_option relaxedAutoImplicit false

universe u v

namespace FiniteMap

variable {κ : Type u} {ν : Type v} [DecidableEq κ]

/-! ### Lengths -/

theorem keys_insert (map : FiniteMap κ ν) (key : κ) (value : ν) :
    (map.insert key value).keys = key :: map.keys.erase key :=
  AList.keys_insert map

theorem keys_remove (map : FiniteMap κ ν) (key : κ) : (map.remove key).keys = map.keys.erase key :=
  AList.keys_erase key map

omit [DecidableEq κ] in
theorem nodup_keys (map : FiniteMap κ ν) : map.keys.Nodup := AList.keys_nodup map

/-- A key that is not bound is not bound after a removal. Assumes: it is not bound. -/
theorem get_remove_eq_none {map : FiniteMap κ ν} {key : κ} (hfree : map.get key = none)
    (removed : κ) : (map.remove removed).get key = none := by
  rw [get_remove]
  split_ifs
  · rfl
  · exact hfree

/-- Removing a binding. Assumes: the key is bound. -/
theorem len_remove_of_isSome {map : FiniteMap κ ν} {key : κ} (hbound : (map.get key).isSome) :
    (map.remove key).len + 1 = map.len := by
  have hmem : key ∈ map.keys := (map.mem_keys_iff key).mpr hbound
  have hpos := List.length_pos_of_mem hmem
  rw [len, len, keys_remove, List.length_erase_of_mem hmem]
  omega

/-- Binding a new key. Assumes: the key is not bound. -/
theorem len_insert_of_none {map : FiniteMap κ ν} {key : κ} (hfree : map.get key = none)
    (value : ν) : (map.insert key value).len = map.len + 1 := by
  have hmem : key ∉ map.keys := by
    rw [map.mem_keys_iff, hfree]
    simp
  rw [len, len, keys_insert, List.erase_of_not_mem hmem, List.length_cons]

/-- Binding a key again. Assumes: the key is bound. -/
theorem len_insert_of_isSome {map : FiniteMap κ ν} {key : κ} (hbound : (map.get key).isSome)
    (value : ν) : (map.insert key value).len = map.len := by
  have hmem : key ∈ map.keys := (map.mem_keys_iff key).mpr hbound
  have hpos := List.length_pos_of_mem hmem
  rw [len, len, keys_insert, List.length_cons, List.length_erase_of_mem hmem]
  omega

/-! ### Maps and their queues -/

/-- The queue holds the keys of the map, each once. -/
structure OrderedBy (map : FiniteMap κ ν) (order : List κ) : Prop where
  nodup : order.Nodup
  mem_iff : ∀ key, key ∈ order ↔ (map.get key).isSome

theorem orderedBy_empty : (empty : FiniteMap κ ν).OrderedBy [] := by
  refine ⟨List.nodup_nil, fun key ↦ ?_⟩
  rw [get_empty]
  simp

namespace OrderedBy

variable {map : FiniteMap κ ν} {order : List κ} {key : κ} {capacity : ℕ}

/-- The queue lists the keys of the map. -/
theorem perm_keys (hordered : map.OrderedBy order) : order.Perm map.keys := by
  rw [List.perm_ext_iff_of_nodup hordered.nodup map.nodup_keys]
  intro key
  rw [map.mem_keys_iff, hordered.mem_iff]

theorem len_eq (hordered : map.OrderedBy order) : map.len = order.length :=
  hordered.perm_keys.length_eq.symm

/-- Rows that are listed along the queue are those of its keys, in its order. Assumes: each row tells
its key. -/
theorem map_filterMap {ρ : Type*} (hordered : map.OrderedBy order) {row : κ → ν → ρ} {keyOf : ρ → κ}
    (hkey : ∀ key value, map.get key = some value → keyOf (row key value) = key) :
    (order.filterMap fun key ↦ (map.get key).map (row key)).map keyOf = order := by
  rw [List.map_filterMap]
  calc order.filterMap (fun key ↦ ((map.get key).map (row key)).map keyOf)
      = order.filterMap some := by
        refine List.filterMap_congr fun key hmem ↦ ?_
        obtain ⟨value, hvalue⟩ := Option.isSome_iff_exists.mp ((hordered.mem_iff key).mp hmem)
        rw [hvalue, Option.map_some, Option.map_some, hkey key value hvalue]
    _ = order := List.filterMap_some

theorem get_eq_none_iff (hordered : map.OrderedBy order) (key : κ) :
    map.get key = none ↔ key ∉ order := by
  rw [hordered.mem_iff, Option.not_isSome_iff_eq_none]

/-- A key that is bound again keeps its place. Assumes: it is bound. -/
theorem insert_of_mem (hordered : map.OrderedBy order) (hbound : (map.get key).isSome) (value : ν) :
    (map.insert key value).OrderedBy order := by
  refine ⟨hordered.nodup, fun other ↦ ?_⟩
  rw [hordered.mem_iff, get_insert]
  split_ifs with hother
  · rw [hother]
    exact iff_of_true hbound rfl
  · rfl

/-- The key at the front leaves. -/
theorem remove_head {oldest : κ} {rest : List κ} (hordered : map.OrderedBy (oldest :: rest)) :
    (map.remove oldest).OrderedBy rest := by
  have hnodup := List.nodup_cons.mp hordered.nodup
  refine ⟨hnodup.2, fun other ↦ ?_⟩
  rw [get_remove]
  split_ifs with hother
  · rw [hother]
    exact iff_of_false hnodup.1 (by simp)
  · rw [← hordered.mem_iff, List.mem_cons]
    simp [hother]

/-- A new key joins at the back. Assumes: it is new. -/
theorem insert_last (hordered : map.OrderedBy order) (hfree : map.get key = none) (value : ν) :
    (map.insert key value).OrderedBy (order ++ [key]) := by
  have hnew := (hordered.get_eq_none_iff key).mp hfree
  refine ⟨?_, fun other ↦ ?_⟩
  · rw [List.nodup_append]
    refine ⟨hordered.nodup, List.nodup_singleton key, fun first hfirst second hsecond ↦ ?_⟩
    rw [List.mem_singleton.mp hsecond]
    rintro rfl
    exact hnew hfirst
  · rw [List.mem_append, List.mem_singleton, hordered.mem_iff, get_insert]
    split_ifs with hother
    · exact iff_of_true (.inr hother) rfl
    · simp [hother]

end OrderedBy

/-- A queue that is cut down to the keys of the map holds them. Assumes: it holds each key once, and
every key of the map. -/
theorem orderedBy_filter {map : FiniteMap κ ν} {order : List κ} (hnodup : order.Nodup)
    (hcovered : ∀ key, (map.get key).isSome → key ∈ order) :
    map.OrderedBy (order.filter fun key ↦ (map.get key).isSome) := by
  refine ⟨hnodup.filter _, fun key ↦ ?_⟩
  rw [List.mem_filter]
  exact ⟨fun hmem ↦ hmem.2, fun hsome ↦ ⟨hcovered key hsome, hsome⟩⟩

/-! ### Running out of keys -/

/-- Making room comes to the end of the queue before there is room, and clears the map. -/
def RunsOut (capacity : ℕ) : List κ → FiniteMap κ ν → Prop
  | [], map => capacity ≤ map.len
  | oldest :: rest, map => capacity ≤ map.len ∧ RunsOut capacity rest (map.remove oldest)

/-- A queue with the keys of the map does not run out. Assumes: there is room for a key. -/
theorem not_runsOut {capacity : ℕ} {order : List κ} {map : FiniteMap κ ν}
    (hordered : map.OrderedBy order) (hpos : 0 < capacity) : ¬ RunsOut capacity order map := by
  induction order generalizing map with
  | nil =>
    intro hruns
    have hempty := hordered.len_eq
    rw [List.length_nil] at hempty
    exact absurd hruns (by rw [RunsOut]; omega)
  | cons oldest rest ih => exact fun hruns ↦ ih hordered.remove_head hruns.2

/-- The queue holds every key of a map that is within its capacity, and no key twice. -/
structure HeldBy (map : FiniteMap κ ν) (capacity : ℕ) (order : List κ) : Prop where
  bounded : map.len ≤ capacity
  covered : ∀ key, (map.get key).isSome → key ∈ order
  nodup : order.Nodup

/-- The queue moreover holds no other key, and making room does not run out of keys. -/
structure TightBy (map : FiniteMap κ ν) (capacity : ℕ) (order : List κ) : Prop extends
    map.HeldBy capacity order where
  live : ∀ key ∈ order, (map.get key).isSome
  lasting : ¬ RunsOut capacity order map

/-- Assumes: the queue has the keys of the map, which is within its positive capacity. -/
theorem OrderedBy.tightBy {capacity : ℕ} {order : List κ} {map : FiniteMap κ ν}
    (hordered : map.OrderedBy order) (hlen : map.len ≤ capacity) (hpos : 0 < capacity) :
    map.TightBy capacity order where
  bounded := hlen
  covered key hsome := (hordered.mem_iff key).mpr hsome
  nodup := hordered.nodup
  live key hmem := (hordered.mem_iff key).mp hmem
  lasting := not_runsOut hordered hpos

/-! ### Storing a value -/

/-- Bind a key. A bound key keeps its place in the queue; a new one joins it at the back, after room
was made for it. -/
def store (capacity : ℕ) (order : List κ) (map : FiniteMap κ ν) (key : κ) (value : ν) :
    List κ × FiniteMap κ ν :=
  if (map.get key).isSome then (order, map.insert key value)
  else ((makeRoom capacity order map).1 ++ [key], (makeRoom capacity order map).2.insert key value)

/-- The key, when it is not bound yet. -/
def newKey (map : FiniteMap κ ν) (key : κ) : Option κ :=
  if (map.get key).isSome then none else some key

theorem newKey_eq_some_iff (map : FiniteMap κ ν) (key other : κ) :
    map.newKey key = some other ↔ other = key ∧ map.get key = none := by
  unfold newKey
  split_ifs with hpresent
  · refine iff_of_false (by simp) ?_
    rintro ⟨-, hnone⟩
    rw [hnone] at hpresent
    cases hpresent
  · rw [Option.some_inj]
    exact ⟨fun heq ↦ ⟨heq.symm, Option.not_isSome_iff_eq_none.mp hpresent⟩, fun hand ↦ hand.1.symm⟩

section Store

variable {map : FiniteMap κ ν} {order : List κ} {capacity : ℕ}

/-- Room in a full map is the place of the oldest key. Assumes: the map is full and not beyond. -/
theorem makeRoom_of_full {oldest : κ} {rest : List κ} (hordered : map.OrderedBy (oldest :: rest))
    (hfull : map.len = capacity) :
    makeRoom capacity (oldest :: rest) map = (rest, map.remove oldest) := by
  have hbound : (map.get oldest).isSome := (hordered.mem_iff oldest).mp List.mem_cons_self
  have hlen := len_remove_of_isSome hbound
  rw [makeRoom, if_neg (by omega), makeRoom_of_lt rest (by omega)]

/-- Storing a value binds a key again, or brings a new key in: beside the others when there is room,
else in the place of the oldest. Assumes: the map is not beyond its capacity, which is positive. -/
theorem store_cases (hordered : map.OrderedBy order) (hlen : map.len ≤ capacity)
    (hpos : 0 < capacity) (key : κ) (value : ν) :
    ((map.get key).isSome ∧
      store capacity order map key value = (order, map.insert key value)) ∨
    (map.get key = none ∧ map.len < capacity ∧
      store capacity order map key value = (order ++ [key], map.insert key value)) ∨
    (map.get key = none ∧ map.len = capacity ∧ ∃ oldest rest, order = oldest :: rest ∧
      store capacity order map key value =
        (rest ++ [key], (map.remove oldest).insert key value)) := by
  by_cases hpresent : (map.get key).isSome
  · exact .inl ⟨hpresent, if_pos hpresent⟩
  · have hnone := Option.not_isSome_iff_eq_none.mp hpresent
    rw [store, if_neg hpresent]
    rcases Nat.lt_or_eq_of_le hlen with hlt | hfull
    · rw [makeRoom_of_lt order hlt]
      exact .inr (.inl ⟨hnone, hlt, rfl⟩)
    · cases order with
      | nil =>
        have hzero := hordered.len_eq
        rw [List.length_nil] at hzero
        omega
      | cons oldest rest =>
        rw [makeRoom_of_full hordered hfull]
        exact .inr (.inr ⟨hnone, hfull, oldest, rest, rfl, rfl⟩)

/-- Changing the value of a key in place, after a new key was brought in with a first value, is
storing the changed value. -/
theorem update_eq_store (capacity : ℕ) (order : List κ) (map : FiniteMap κ ν) (key : κ) (first : ν)
    (change : ν → ν) :
    let base := if (map.get key).isSome then (order, map)
      else ((makeRoom capacity order map).1 ++ [key],
        (makeRoom capacity order map).2.insert key first)
    (base.1, base.2.update key change) =
      store capacity order map key (change ((map.get key).getD first)) := by
  intro base
  cases hvalue : map.get key with
  | some value => simp only [base, store, hvalue, Option.isSome_some, if_true, update,
      Option.getD_some]
  | none => simp only [base, store, hvalue, Option.isSome_none, Bool.false_eq_true, if_false, update,
      get_insert_self, insert_insert, Option.getD_none]

theorem orderedBy_store (hordered : map.OrderedBy order) (hlen : map.len ≤ capacity)
    (hpos : 0 < capacity) (key : κ) (value : ν) :
    (store capacity order map key value).2.OrderedBy (store capacity order map key value).1 := by
  rcases store_cases hordered hlen hpos key value with
    ⟨hpresent, hstore⟩ | ⟨hnone, -, hstore⟩ | ⟨hnone, -, oldest, rest, rfl, hstore⟩
  · rw [hstore]
    exact hordered.insert_of_mem hpresent value
  · rw [hstore]
    exact hordered.insert_last hnone value
  · rw [hstore]
    exact hordered.remove_head.insert_last (get_remove_eq_none hnone oldest) value

theorem len_store_le (hordered : map.OrderedBy order) (hlen : map.len ≤ capacity)
    (hpos : 0 < capacity) (key : κ) (value : ν) :
    (store capacity order map key value).2.len ≤ capacity := by
  rcases store_cases hordered hlen hpos key value with
    ⟨hpresent, hstore⟩ | ⟨hnone, hlt, hstore⟩ | ⟨hnone, hfull, oldest, rest, rfl, hstore⟩
  · rw [hstore, len_insert_of_isSome hpresent]
    exact hlen
  · rw [hstore, len_insert_of_none hnone]
    exact hlt
  · have hremoved := len_remove_of_isSome ((hordered.mem_iff oldest).mp List.mem_cons_self)
    rw [hstore, len_insert_of_none (get_remove_eq_none hnone oldest)]
    omega

/-- A stored key is bound to the value. -/
theorem get_store_self (capacity : ℕ) (order : List κ) (map : FiniteMap κ ν) (key : κ) (value : ν) :
    (store capacity order map key value).2.get key = some value := by
  unfold store
  split_ifs <;> exact get_insert_self _ key value

/-- Another key is bound as before, or not at all. Assumes: it is bound after the store. -/
theorem get_of_get_store {key other : κ} {value found : ν} (hne : other ≠ key)
    (hget : (store capacity order map key value).2.get other = some found) :
    map.get other = some found := by
  unfold store at hget
  split_ifs at hget
  · rwa [get_insert_of_ne _ hne] at hget
  · rw [get_insert_of_ne _ hne] at hget
    exact get_of_get_makeRoom order map hget

/-- Storing a value keeps a part of the queue, and a new key joins it at the back. Assumes: the map
is not beyond its capacity, which is positive. -/
theorem order_store (hordered : map.OrderedBy order) (hlen : map.len ≤ capacity)
    (hpos : 0 < capacity) (key : κ) (value : ν) :
    ∃ kept, kept.Sublist order ∧
      (store capacity order map key value).1 = kept ++ (map.newKey key).toList ∧
      ∀ other, map.newKey key = some other → other ∉ kept := by
  have hnew : ∀ other, map.newKey key = some other → other ∉ order := by
    intro other hother
    obtain ⟨rfl, hnone⟩ := (map.newKey_eq_some_iff key other).mp hother
    exact (hordered.get_eq_none_iff other).mp hnone
  rcases store_cases hordered hlen hpos key value with
    ⟨hpresent, hstore⟩ | ⟨hnone, -, hstore⟩ | ⟨hnone, -, oldest, rest, rfl, hstore⟩
  · refine ⟨order, List.Sublist.refl order, ?_, hnew⟩
    rw [hstore, newKey, if_pos hpresent, Option.toList_none, List.append_nil]
  · refine ⟨order, List.Sublist.refl order, ?_, hnew⟩
    rw [hstore, (map.newKey_eq_some_iff key key).mpr ⟨rfl, hnone⟩, Option.toList_some]
  · refine ⟨rest, List.sublist_cons_self oldest rest, ?_, fun other hother hmem ↦ ?_⟩
    · rw [hstore, (map.newKey_eq_some_iff key key).mpr ⟨rfl, hnone⟩, Option.toList_some]
    · exact hnew other hother (List.mem_cons_of_mem oldest hmem)

/-- A value that is lost is that of the key at the front. Assumes: it is lost. -/
theorem front_of_lost (hordered : map.OrderedBy order) (hlen : map.len ≤ capacity)
    (hpos : 0 < capacity) {key other : κ} {value : ν} (hbound : (map.get other).isSome)
    (hlost : (store capacity order map key value).2.get other = none) :
    ∃ rest, order = other :: rest := by
  have hne : other ≠ key := by
    rintro rfl
    rw [get_store_self] at hlost
    cases hlost
  rcases store_cases hordered hlen hpos key value with
    ⟨-, hstore⟩ | ⟨-, -, hstore⟩ | ⟨-, -, oldest, rest, rfl, hstore⟩
  · rw [hstore, get_insert_of_ne _ hne] at hlost
    rw [hlost] at hbound
    cases hbound
  · rw [hstore, get_insert_of_ne _ hne] at hlost
    rw [hlost] at hbound
    cases hbound
  · rw [hstore, get_insert_of_ne _ hne, get_remove] at hlost
    split_ifs at hlost with hoverlap
    · exact ⟨rest, hoverlap ▸ rfl⟩
    · rw [hlost] at hbound
      cases hbound

end Store

end FiniteMap

/-! ### Queues along runs -/

namespace Run

variable {σ ω κ : Type*} (step : σ → ω → σ) (start : σ) (ops : List ω)
  (arrives : σ → ω → Option κ)

/-- The operation at an index lets a key join the queue. -/
def ArrivedAt (index : ℕ) (key : κ) : Prop :=
  ∃ op, ops[index]? = some op ∧ arrives (stateAt step start ops index) op = some key

/-- The last arrival of a key before a bound. -/
def LastArrival (bound : ℕ) (key : κ) (index : ℕ) : Prop :=
  index < bound ∧ ArrivedAt step start ops arrives index key ∧
    ∀ between, index < between → between < bound →
      ¬ ArrivedAt step start ops arrives between key

variable {step start ops arrives}

/-- An operation that is not the arrival of the key leaves its last arrival. -/
theorem lastArrival_succ_of_not {bound index : ℕ} {key : κ}
    (hnot : ¬ ArrivedAt step start ops arrives bound key) :
    LastArrival step start ops arrives (bound + 1) key index ↔
      LastArrival step start ops arrives bound key index := by
  constructor
  · rintro ⟨hlt, harrived, hlast⟩
    have hne : index ≠ bound := fun heq ↦ hnot (heq ▸ harrived)
    exact ⟨by omega, harrived, fun between hafter hbefore ↦ hlast between hafter (by omega)⟩
  · rintro ⟨hlt, harrived, hlast⟩
    refine ⟨by omega, harrived, fun between hafter hbefore ↦ ?_⟩
    rcases Nat.lt_succ_iff_lt_or_eq.mp hbefore with hearlier | rfl
    · exact hlast between hafter hearlier
    · exact hnot

/-- An arrival is the last one. -/
theorem lastArrival_succ_self {bound index : ℕ} {key : κ}
    (harrived : ArrivedAt step start ops arrives bound key) :
    LastArrival step start ops arrives (bound + 1) key index ↔ index = bound := by
  constructor
  · rintro ⟨hlt, -, hlast⟩
    by_contra hne
    exact hlast bound (by omega) (by omega) harrived
  · rintro rfl
    exact ⟨by omega, harrived, fun between hafter hbefore ↦ by omega⟩

/-- The keys of a queue have arrived, and stand in the order of their last arrivals. -/
structure InOrder (step : σ → ω → σ) (start : σ) (ops : List ω) (arrives : σ → ω → Option κ)
    (bound : ℕ) (queue : List κ) : Prop where
  arrived : ∀ key ∈ queue, ∃ index, LastArrival step start ops arrives bound key index
  sorted : queue.Pairwise fun earlier later ↦ ∀ first second,
    LastArrival step start ops arrives bound earlier first →
    LastArrival step start ops arrives bound later second → first < second

/-- Assumes: a part of the queue, in its order. -/
theorem InOrder.sublist {bound : ℕ} {queue kept : List κ}
    (horder : InOrder step start ops arrives bound queue) (hkept : kept.Sublist queue) :
    InOrder step start ops arrives bound kept :=
  ⟨fun key hmem ↦ horder.arrived key (hkept.subset hmem), horder.sorted.sublist hkept⟩

/-- Assumes: no key of the queue arrives. -/
theorem InOrder.succ {bound : ℕ} {queue : List κ}
    (horder : InOrder step start ops arrives bound queue)
    (hnot : ∀ key ∈ queue, ¬ ArrivedAt step start ops arrives bound key) :
    InOrder step start ops arrives (bound + 1) queue := by
  refine ⟨fun key hmem ↦ ?_, ?_⟩
  · obtain ⟨index, hlast⟩ := horder.arrived key hmem
    exact ⟨index, (lastArrival_succ_of_not (hnot key hmem)).mpr hlast⟩
  · refine horder.sorted.imp_of_mem fun {earlier later} hearlier hlater hlt first second hfirst
      hsecond ↦ ?_
    rw [lastArrival_succ_of_not (hnot earlier hearlier)] at hfirst
    rw [lastArrival_succ_of_not (hnot later hlater)] at hsecond
    exact hlt first second hfirst hsecond

/-- Assumes: the key that joins the queue arrives, and the others do not. -/
theorem InOrder.concat {bound : ℕ} {queue : List κ} {key : κ}
    (horder : InOrder step start ops arrives bound queue)
    (hnot : ∀ other ∈ queue, ¬ ArrivedAt step start ops arrives bound other)
    (harrived : ArrivedAt step start ops arrives bound key) :
    InOrder step start ops arrives (bound + 1) (queue ++ [key]) := by
  have hbefore := horder.succ hnot
  refine ⟨fun other hmem ↦ ?_, List.pairwise_append.mpr ⟨hbefore.sorted,
    List.pairwise_singleton _ _, fun earlier hearlier later hlater first second hfirst hsecond ↦ ?_⟩⟩
  · rcases List.mem_append.mp hmem with hold | hnew
    · exact hbefore.arrived other hold
    · rw [List.mem_singleton.mp hnew]
      exact ⟨bound, (lastArrival_succ_self harrived).mpr rfl⟩
  · rw [List.mem_singleton.mp hlater, lastArrival_succ_self harrived] at hsecond
    rw [lastArrival_succ_of_not (hnot earlier hearlier)] at hfirst
    exact hsecond ▸ hfirst.1

variable (ops) in
/-- A queue stands in the order of arrival along every run. Assumes: an empty queue at the start, a
property that every operation preserves, and that in the states with the property an operation keeps
a part of the queue, to which the arriving key joins at the back when it is not in it. -/
theorem inOrder_stateAt (property : σ → Prop) (queue : σ → List κ) (hstart : property start)
    (hempty : queue start = [])
    (hproperty : ∀ state op, property state → property (step state op))
    (hqueue : ∀ state op, property state → ∃ kept, kept.Sublist (queue state) ∧
      queue (step state op) = kept ++ (arrives state op).toList ∧
      ∀ key, arrives state op = some key → key ∉ kept) (index : ℕ) :
    InOrder step start ops arrives index (queue (stateAt step start ops index)) := by
  induction index with
  | zero =>
    rw [stateAt_zero, hempty]
    exact ⟨by simp, List.Pairwise.nil⟩
  | succ index ih =>
    cases hop : ops[index]? with
    | none =>
      rw [stateAt_succ_of_none step start ops hop]
      refine ih.succ ?_
      rintro key - ⟨op, hsome, -⟩
      rw [hop] at hsome
      cases hsome
    | some op =>
      have hbefore := stateAt_invariant step start ops property hstart hproperty index
      obtain ⟨kept, hkept, hafter, hnew⟩ := hqueue _ op hbefore
      have hnot : ∀ key ∈ kept, ¬ ArrivedAt step start ops arrives index key := by
        rintro key hmem ⟨op', hop', harrives⟩
        obtain rfl := Option.some.inj (hop.symm.trans hop')
        exact hnew key harrives hmem
      rw [stateAt_succ step start ops hop, hafter]
      cases harrives : arrives (stateAt step start ops index) op with
      | none => simpa using (ih.sublist hkept).succ hnot
      | some key => exact (ih.sublist hkept).concat hnot ⟨op, hop, harrives⟩

end Run
