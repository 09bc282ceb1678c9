import Mathlib.Algebra.BigOperators.Group.List.Basic
import Mathlib.Algebra.GroupWithZero.Nat
import Mathlib.Data.List.DropRight

/-!
# The last few items of a list

A window keeps the last items of a list that grows at its end. `push` adds an item and drops the
first one of a full window, so that a window that is pushed to is the window of the longer list
(`push_rtake`, `foldl_push`). `trim` drops items from the front until the rest weighs no more than a
limit; it leaves the end of the list (`trim_suffix`) and with it the last item, if that fits.
-/

set_option autoImplicit false
set_option relaxedAutoImplicit false

namespace Window

variable {α : Type*}

/-- Add an item, and drop the first one when there are `capacity` items. -/
def push (capacity : ℕ) (items : List α) (item : α) : List α :=
  (if items.length = capacity then items.drop 1 else items) ++ [item]

theorem mem_of_mem_push {capacity : ℕ} {items : List α} {item other : α}
    (hmem : other ∈ push capacity items item) : other ∈ items ∨ other = item := by
  rcases List.mem_append.mp hmem with hkept | hpushed
  · split_ifs at hkept
    · exact .inl (List.mem_of_mem_drop hkept)
    · exact .inl hkept
  · exact .inr (List.mem_singleton.mp hpushed)

theorem push_suffix (capacity : ℕ) (items : List α) (item : α) :
    push capacity items item <:+ items ++ [item] := by
  rw [push, List.suffix_append_self_iff]
  split_ifs
  · exact List.drop_suffix 1 items
  · exact List.suffix_rfl

/-- A push keeps the number of items within the capacity. Assumes: there is room for an item, and
the items are within it. -/
theorem length_push_le {capacity : ℕ} (hcapacity : 0 < capacity) {items : List α}
    (hitems : items.length ≤ capacity) (item : α) : (push capacity items item).length ≤ capacity := by
  rw [push, List.length_append, List.length_singleton]
  split_ifs with hfull
  · rw [List.length_drop]
    omega
  · omega

/-- Pushing to the window of a list gives the window of the longer list. Assumes: the window has
room for an item. -/
theorem push_rtake {capacity : ℕ} (hcapacity : 0 < capacity) (items : List α) (item : α) :
    push capacity (items.rtake capacity) item = (items ++ [item]).rtake capacity := by
  unfold push List.rtake
  rw [List.length_drop, List.length_append, List.length_singleton]
  by_cases hfull : capacity ≤ items.length
  · have hlength : items.length - (items.length - capacity) = capacity := by omega
    have hstart : items.length + 1 - capacity = items.length - capacity + 1 := by omega
    rw [if_pos hlength, List.drop_drop, hstart, List.drop_append_of_le_length (by omega)]
  · have hlength : ¬ items.length - (items.length - capacity) = capacity := by omega
    have hbefore : items.length - capacity = 0 := by omega
    have hafter : items.length + 1 - capacity = 0 := by omega
    rw [if_neg hlength, hbefore, hafter, List.drop_zero, List.drop_zero]

/-- Pushing items one by one keeps the last of them. Assumes: the window has room for an item. -/
theorem foldl_push {capacity : ℕ} (hcapacity : 0 < capacity) (items : List α) :
    items.foldl (push capacity) [] = items.rtake capacity := by
  induction items using List.reverseRecOn with
  | nil => simp
  | append_singleton items item ih =>
    rw [List.foldl_append, ih, List.foldl_cons, List.foldl_nil, push_rtake hcapacity]

theorem length_rtake_le (capacity : ℕ) (items : List α) : (items.rtake capacity).length ≤ capacity := by
  rw [List.rtake, List.length_drop]
  omega

theorem rtake_suffix (capacity : ℕ) (items : List α) : items.rtake capacity <:+ items :=
  List.drop_suffix _ items

/-- A list that fits is its own window. Assumes: it fits. -/
theorem rtake_of_length_le {capacity : ℕ} {items : List α} (hle : items.length ≤ capacity) :
    items.rtake capacity = items := by
  rw [List.rtake, Nat.sub_eq_zero_of_le hle, List.drop_zero]

/-! ### Weight -/

/-- Drop items from the front until the rest weighs no more than the limit. -/
def trim (weight : α → ℕ) (limit : ℕ) : List α → List α
  | [] => []
  | first :: rest =>
    if ((first :: rest).map weight).sum ≤ limit then first :: rest else trim weight limit rest

variable (weight : α → ℕ) (limit : ℕ)

theorem trim_suffix (items : List α) : trim weight limit items <:+ items := by
  induction items with
  | nil => exact List.suffix_rfl
  | cons first rest ih =>
    rw [trim]
    split_ifs
    · exact List.suffix_rfl
    · exact ih.trans (List.suffix_cons first rest)

theorem sum_trim_le (items : List α) : ((trim weight limit items).map weight).sum ≤ limit := by
  induction items with
  | nil => exact Nat.zero_le limit
  | cons first rest ih =>
    rw [trim]
    split_ifs with hfits
    · exact hfits
    · exact ih

/-- The last item stays. Assumes: it fits. -/
theorem exists_trim_concat {item : α} (hfits : weight item ≤ limit) (items : List α) :
    ∃ kept, trim weight limit (items ++ [item]) = kept ++ [item] := by
  induction items with
  | nil => exact ⟨[], by simp [trim, hfits]⟩
  | cons first rest ih =>
    rw [List.cons_append, trim]
    split_ifs
    · exact ⟨first :: rest, rfl⟩
    · exact ih

end Window
