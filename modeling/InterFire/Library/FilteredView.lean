import Mathlib.Data.List.Nodup

/-!
# Rows of a filtered list

A view shows those items of a list that pass a filter, and counts its rows on its own. `place` is the
place in the list of a row of the view. The item at an index of the list is the item of the row at
the same index when nothing is hidden up to it, or when it happens to be a copy of that one
(`getElem?_filter_eq_iff`). When the first item goes, the rows move up exactly when it was shown
(`place_cons_of_pos`, `place_cons_of_neg`).
-/

set_option autoImplicit false
set_option relaxedAutoImplicit false

universe u v

namespace FilteredView

variable {α : Type u} (shows : α → Bool)

/-- The place in the list of a row of the view. -/
def place : List α → ℕ → Option ℕ
  | [], _ => none
  | first :: rest, row =>
    if shows first then
      match row with
      | 0 => some 0
      | row + 1 => (place rest row).map (· + 1)
    else (place rest row).map (· + 1)

section Cons

variable {shows} {first : α} (rest : List α)

theorem place_cons_zero (hfirst : shows first = true) : place shows (first :: rest) 0 = some 0 := by
  rw [place, if_pos hfirst]

theorem place_cons_of_pos (hfirst : shows first = true) (row : ℕ) :
    place shows (first :: rest) (row + 1) = (place shows rest row).map (· + 1) := by
  rw [place, if_pos hfirst]

theorem place_cons_of_neg (hfirst : ¬ shows first = true) (row : ℕ) :
    place shows (first :: rest) row = (place shows rest row).map (· + 1) := by
  rw [place.eq_def]
  exact if_neg hfirst

end Cons

/-- The items before the place of a row that are shown are its rows. -/
theorem place_eq_some_iff (items : List α) (row index : ℕ) :
    place shows items row = some index ↔
      (∃ item, items[index]? = some item ∧ shows item = true) ∧
        (items.take index).countP shows = row := by
  induction items generalizing row index with
  | nil => simp [place]
  | cons first rest ih =>
    by_cases hfirst : shows first = true
    · cases row with
      | zero =>
        rw [place_cons_zero rest hfirst]
        cases index with
        | zero => simp [hfirst]
        | succ index => simp [hfirst]
      | succ row =>
        rw [place_cons_of_pos rest hfirst]
        cases index with
        | zero => simp
        | succ index => simp [hfirst, ih]
    · rw [place_cons_of_neg rest hfirst]
      cases index with
      | zero => simp [hfirst]
      | succ index => simp [hfirst, ih]

/-- A row shows the item at its place. -/
theorem getElem?_filter (items : List α) (row : ℕ) :
    (items.filter shows)[row]? = (place shows items row).bind (items[·]?) := by
  induction items generalizing row with
  | nil => rfl
  | cons first rest ih =>
    by_cases hfirst : shows first = true
    · rw [List.filter_cons_of_pos hfirst]
      cases row with
      | zero =>
        rw [place_cons_zero rest hfirst]
        rfl
      | succ row =>
        rw [place_cons_of_pos rest hfirst, List.getElem?_cons_succ, ih, Option.bind_map]
        rfl
    · rw [List.filter_cons_of_neg hfirst, place_cons_of_neg rest hfirst, ih, Option.bind_map]
      rfl

/-- A row is in the view exactly when it has a place. -/
theorem isSome_place_iff (items : List α) (row : ℕ) :
    (place shows items row).isSome ↔ row < (items.filter shows).length := by
  have hfilter := getElem?_filter shows items row
  cases hplace : place shows items row with
  | none =>
    rw [hplace, Option.bind_none, List.getElem?_eq_none_iff] at hfilter
    simpa using hfilter
  | some index =>
    obtain ⟨⟨item, hitem, -⟩, -⟩ := (place_eq_some_iff shows items row index).mp hplace
    rw [hplace, Option.bind_some, hitem] at hfilter
    obtain ⟨hlt, -⟩ := List.getElem?_eq_some_iff.mp hfilter
    simpa using hlt

/-- The place of a row is where it was when items are appended. Assumes: it has a place. -/
theorem place_append {items : List α} {row index : ℕ} (hplace : place shows items row = some index)
    (more : List α) : place shows (items ++ more) row = some index := by
  obtain ⟨⟨item, hitem, hshows⟩, hcount⟩ := (place_eq_some_iff shows items row index).mp hplace
  obtain ⟨hlt, -⟩ := List.getElem?_eq_some_iff.mp hitem
  refine (place_eq_some_iff shows (items ++ more) row index).mpr ⟨⟨item, ?_, hshows⟩, ?_⟩
  · rw [List.getElem?_append_left hlt, hitem]
  · rw [List.take_append_of_le_length (Nat.le_of_lt hlt), hcount]

/-- Two rows have two places. Assumes: one place is the place of both. -/
theorem place_inj {items : List α} {first second index : ℕ}
    (hfirst : place shows items first = some index)
    (hsecond : place shows items second = some index) : first = second := by
  have hfirst := ((place_eq_some_iff shows items first index).mp hfirst).2
  have hsecond := ((place_eq_some_iff shows items second index).mp hsecond).2
  exact hfirst.symm.trans hsecond

/-! ### The item at the index of a row -/

section Aligned

variable {β : Type v} (key : α → β) (items : List α) (row : ℕ)

/-- Nothing is hidden up to an index, or the item there has the key of a later one, which is shown and
has as many shown items before it as the index says. -/
def Aligned : Prop :=
  (∀ item ∈ items.take (row + 1), shows item = true) ∨
    ∃ index, row < index ∧ (∃ item, items[index]? = some item ∧ shows item = true) ∧
      (items.take index).countP shows = row ∧ items[index]?.map key = items[row]?.map key

variable {items row}

/-- A row is at its own index exactly when nothing is hidden up to there. Assumes: it is in the
view. -/
theorem place_eq_self_iff (hrow : row < (items.filter shows).length) :
    place shows items row = some row ↔ ∀ item ∈ items.take (row + 1), shows item = true := by
  have hlt : row < items.length := Nat.lt_of_lt_of_le hrow (List.length_filter_le shows items)
  have hlength : (items.take row).length = row := List.length_take_of_le (Nat.le_of_lt hlt)
  have htake : items.take (row + 1) = items.take row ++ [items[row]] :=
    List.take_succ_eq_append_getElem hlt
  rw [place_eq_some_iff, List.getElem?_eq_getElem hlt, htake]
  constructor
  · rintro ⟨⟨item, hitem, hshows⟩, hcount⟩ other hother
    obtain rfl := Option.some.inj hitem
    have hall := List.countP_eq_length.mp (hcount.trans hlength.symm)
    rcases List.mem_append.mp hother with hother | hother
    · exact hall other hother
    · rw [List.mem_singleton.mp hother]
      exact hshows
  · intro hall
    refine ⟨⟨_, rfl, hall _ (List.mem_append_right _ List.mem_cons_self)⟩, ?_⟩
    rw [List.countP_eq_length.mpr fun item hitem ↦ hall item (List.mem_append_left _ hitem), hlength]

/-- The item at the index of a row has the key of the row exactly when they are aligned. Assumes: the
row is in the view. -/
theorem getElem?_filter_eq_iff (hrow : row < (items.filter shows).length) :
    (items.filter shows)[row]?.map key = items[row]?.map key ↔ Aligned shows key items row := by
  obtain ⟨index, hplace⟩ :=
    Option.isSome_iff_exists.mp ((isSome_place_iff shows items row).mpr hrow)
  have hitem : (items.filter shows)[row]? = items[index]? := by
    rw [getElem?_filter, hplace, Option.bind_some]
  obtain ⟨hshown, hcount⟩ := (place_eq_some_iff shows items row index).mp hplace
  have hle : row ≤ index := by
    rw [← hcount]
    exact Nat.le_trans List.countP_le_length (List.length_take_le index items)
  rw [hitem, Aligned]
  constructor
  · intro hkey
    rcases Nat.eq_or_lt_of_le hle with heq | hlt
    · rw [← heq] at hplace
      exact .inl ((place_eq_self_iff shows hrow).mp hplace)
    · exact .inr ⟨index, hlt, hshown, hcount, hkey⟩
  · rintro (hall | ⟨later, -, hshown', hcount', hkey⟩)
    · have hself := (place_eq_self_iff shows hrow).mpr hall
      rw [Option.some.inj (hplace.symm.trans hself)]
    · have hlater := (place_eq_some_iff shows items row later).mpr ⟨hshown', hcount'⟩
      rw [Option.some.inj (hplace.symm.trans hlater), hkey]

end Aligned

/-! ### Rows when the first item goes -/

/-- The row of an item after the first one has moved up exactly when the first one was shown. Assumes:
the row is in the view. -/
theorem place_moved_iff {first : α} {rest : List α} {row : ℕ}
    (hrow : row < ((first :: rest).filter shows).length) (more : List α) :
    (∀ index, place shows (first :: rest) row = some (index + 1) →
        place shows (rest ++ more) (row - 1) = some index) ↔
      shows first = true ∨ row = 0 := by
  obtain ⟨index, hplace⟩ :=
    Option.isSome_iff_exists.mp ((isSome_place_iff shows (first :: rest) row).mpr hrow)
  by_cases hfirst : shows first = true
  · refine iff_of_true (fun later hlater ↦ ?_) (.inl hfirst)
    cases row with
    | zero =>
      rw [place_cons_zero rest hfirst] at hlater
      cases hlater
    | succ row =>
      rw [place_cons_of_pos rest hfirst, Option.map_eq_some_iff] at hlater
      obtain ⟨before, hbefore, heq⟩ := hlater
      obtain rfl := Nat.succ.inj heq
      exact place_append shows hbefore more
  · rw [place_cons_of_neg rest hfirst, Option.map_eq_some_iff] at hplace
    obtain ⟨before, hbefore, rfl⟩ := hplace
    have hkept := place_append shows hbefore more
    constructor
    · intro hmoved
      have hup := hmoved before (by rw [place_cons_of_neg rest hfirst, hbefore]; rfl)
      have hsame := place_inj shows hkept hup
      exact .inr (by omega)
    · rintro (hshows | rfl) later hlater
      · exact absurd hshows hfirst
      · rw [place_cons_of_neg rest hfirst, hbefore] at hlater
        obtain rfl := Nat.succ.inj (Option.some.inj hlater)
        exact hkept

/-- The item of a row moves up with the rows, if it is still shown, exactly when the first item was
shown. Assumes: the row is in the view and within a limit, and no item occurs twice. -/
theorem item_moved_iff {first : α} {rest more : List α} {row limit : ℕ}
    (hrow : row < ((first :: rest).filter shows).length) (hlimit : row < limit)
    (hnodup : (first :: (rest ++ more)).Nodup) :
    (∀ item, ((first :: rest).filter shows)[row]? = some item →
        item ∈ ((rest ++ more).filter shows).take limit →
        ((rest ++ more).filter shows)[row - 1]? = some item) ↔
      shows first = true ∨ row = 0 := by
  obtain ⟨hfirst, hrest⟩ := List.nodup_cons.mp hnodup
  rw [← place_moved_iff shows hrow more]
  constructor
  · intro hkept index hplace
    obtain ⟨⟨item, hitem, hshows⟩, hcount⟩ :=
      (place_eq_some_iff shows (first :: rest) row (index + 1)).mp hplace
    rw [List.getElem?_cons_succ] at hitem
    obtain ⟨hlt, -⟩ := List.getElem?_eq_some_iff.mp hitem
    have hrow : ((first :: rest).filter shows)[row]? = some item := by
      rw [getElem?_filter, hplace, Option.bind_some, List.getElem?_cons_succ, hitem]
    have hlater : (rest ++ more)[index]? = some item := by
      rw [List.getElem?_append_left hlt, hitem]
    -- The item does not move down, so the limit does not hide it.
    have hshown : item ∈ ((rest ++ more).filter shows).take limit := by
      have hplace' := (place_eq_some_iff shows (rest ++ more) _ index).mpr
        ⟨⟨item, hlater, hshows⟩, rfl⟩
      have hbefore : ((rest ++ more).take index).countP shows ≤ row := by
        rw [List.take_append_of_le_length (Nat.le_of_lt hlt), ← hcount, List.take_succ_cons,
          List.countP_cons]
        exact Nat.le_add_right _ _
      have hitem' : ((rest ++ more).filter shows)[((rest ++ more).take index).countP shows]? =
          some item := by
        rw [getElem?_filter, hplace', Option.bind_some, hlater]
      rw [← List.getElem?_take_of_lt (Nat.lt_of_le_of_lt hbefore hlimit)] at hitem'
      exact List.mem_of_getElem? hitem'
    have hmoved := hkept item hrow hshown
    rw [getElem?_filter] at hmoved
    obtain ⟨other, hother, hsame⟩ := Option.bind_eq_some_iff.mp hmoved
    have heq : other = index := by
      obtain ⟨hlt, hother'⟩ := List.getElem?_eq_some_iff.mp hsame
      obtain ⟨hlt', hindex'⟩ := List.getElem?_eq_some_iff.mp hlater
      exact (hrest.getElem_inj_iff).mp (hother'.trans hindex'.symm)
    rw [hother, heq]
  · intro hmoved item hitem hshown
    rw [getElem?_filter] at hitem
    obtain ⟨index, hplace, hitem⟩ := Option.bind_eq_some_iff.mp hitem
    cases index with
    | zero =>
      obtain rfl := Option.some.inj hitem
      exact absurd (List.mem_filter.mp (List.mem_of_mem_take hshown)).1 hfirst
    | succ index =>
      rw [List.getElem?_cons_succ] at hitem
      obtain ⟨hlt, -⟩ := List.getElem?_eq_some_iff.mp hitem
      rw [getElem?_filter, hmoved index hplace, Option.bind_some, List.getElem?_append_left hlt, hitem]

end FilteredView
