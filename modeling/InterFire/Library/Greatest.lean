import Mathlib.Data.Set.Function
import Mathlib.Order.Defs.LinearOrder

/-!
# The element of greatest key

`StrictlyGreatest key members element` says that an element of a set has a greater key than every
other one. There is at most one such element (`StrictlyGreatest.unique`), an element of maximal key
is one when the key is injective on the set (`strictlyGreatest_of_max`), and it stays the greatest
when elements of smaller key come or go (`StrictlyGreatest.insert`, `StrictlyGreatest.subset`).

`strictlyGreatest_scan` is about the scan that keeps the last of the elements with the greatest key:
it ends with the element of strictly greatest key, when there is one.
-/

set_option autoImplicit false
set_option relaxedAutoImplicit false

namespace Greatest

variable {α β : Type*} [LinearOrder β] {key : α → β} {members : Set α} {element : α}

/-- The element is in the set and its key exceeds that of every other element. -/
def StrictlyGreatest (key : α → β) (members : Set α) (element : α) : Prop :=
  element ∈ members ∧ ∀ other ∈ members, other ≠ element → key other < key element

/-- There is at most one element of strictly greatest key. -/
theorem StrictlyGreatest.unique {other : α} (hfirst : StrictlyGreatest key members element)
    (hsecond : StrictlyGreatest key members other) : element = other := by
  by_contra hne
  have hlt := hfirst.2 other hsecond.1 (Ne.symm hne)
  exact absurd (hsecond.2 element hfirst.1 hne) hlt.asymm

/-- An element of maximal key has the strictly greatest one. Assumes: the key is injective on the
set. -/
theorem strictlyGreatest_of_max (hinjective : Set.InjOn key members) (hmem : element ∈ members)
    (hmax : ∀ other ∈ members, key other ≤ key element) :
    StrictlyGreatest key members element := by
  refine ⟨hmem, fun other hother hne ↦ ?_⟩
  refine lt_of_le_of_ne (hmax other hother) fun hkey ↦ ?_
  exact hne (hinjective hother hmem hkey)

/-- An element of maximal key is the one of strictly greatest key. Assumes: there is one. -/
theorem StrictlyGreatest.eq_of_max {other : α} (hgreatest : StrictlyGreatest key members element)
    (hmem : other ∈ members) (hmax : key element ≤ key other) : other = element := by
  by_contra hne
  exact absurd hmax (not_le.mpr (hgreatest.2 other hmem hne))

/-- A new element of smaller key changes nothing. Assumes: its key is smaller. -/
theorem StrictlyGreatest.insert {new : α} (hgreatest : StrictlyGreatest key members element)
    (hlt : key new < key element) : StrictlyGreatest key (insert new members) element := by
  refine ⟨Set.mem_insert_of_mem new hgreatest.1, fun other hother hne ↦ ?_⟩
  rcases hother with rfl | hother
  · exact hlt
  · exact hgreatest.2 other hother hne

/-- Losing other elements changes nothing. Assumes: the element stays. -/
theorem StrictlyGreatest.subset {smaller : Set α} (hgreatest : StrictlyGreatest key members element)
    (hsubset : smaller ⊆ members) (hmem : element ∈ smaller) :
    StrictlyGreatest key smaller element :=
  ⟨hmem, fun other hother hne ↦ hgreatest.2 other (hsubset hother) hne⟩

/-! ### The scan -/

/-- Keep the later of two elements unless its key is smaller. -/
def keepGreater (key : α → β) (best next : α) : α := if key best ≤ key next then next else best

/-- The scan ends with an element it has seen, whose key no element it has seen exceeds. -/
theorem scan_spec (key : α → β) (rest : List α) (first : α) :
    rest.foldl (keepGreater key) first ∈ first :: rest ∧
      ∀ other ∈ first :: rest, key other ≤ key (rest.foldl (keepGreater key) first) := by
  induction rest generalizing first with
  | nil => simp
  | cons next rest ih =>
    rw [List.foldl_cons]
    obtain ⟨hmem, hmax⟩ := ih (keepGreater key first next)
    -- The element that the first comparison keeps bounds both of those it compares.
    have hfirst : key first ≤ key (keepGreater key first next) := by
      unfold keepGreater
      split_ifs with hle
      · exact hle
      · exact le_rfl
    have hnext : key next ≤ key (keepGreater key first next) := by
      unfold keepGreater
      split_ifs with hle
      · exact le_rfl
      · exact (not_le.mp hle).le
    have hkept := hmax _ List.mem_cons_self
    refine ⟨?_, fun other hother ↦ ?_⟩
    · rcases List.mem_cons.mp hmem with heq | hrest
      · rw [heq]
        unfold keepGreater
        split_ifs
        · exact List.mem_cons_of_mem _ List.mem_cons_self
        · exact List.mem_cons_self
      · exact List.mem_cons_of_mem _ (List.mem_cons_of_mem _ hrest)
    · rcases List.mem_cons.mp hother with rfl | hother
      · exact hfirst.trans hkept
      · rcases List.mem_cons.mp hother with rfl | hrest
        · exact hnext.trans hkept
        · exact hmax other (List.mem_cons_of_mem _ hrest)

/-- The scan of a list with an element of strictly greatest key ends with it. Assumes: there is
one. -/
theorem strictlyGreatest_scan {first : α} {rest : List α}
    (hgreatest : StrictlyGreatest key {member | member ∈ first :: rest} element) :
    rest.foldl (keepGreater key) first = element := by
  obtain ⟨hmem, hmax⟩ := scan_spec key rest first
  exact hgreatest.eq_of_max hmem (hmax element hgreatest.1)

end Greatest
