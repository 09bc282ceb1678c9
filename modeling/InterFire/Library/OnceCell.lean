import Mathlib.Data.List.Basic
import Mathlib.Logic.Function.Basic

/-!
# Cells that are written once

A cell is empty until it is asked for the first time, with a value to put into it, and is asked for
that value ever after, whatever comes with the later calls. `getElem?_answers` says what every call of
a sequence is answered: what the cell held at the start, or the value of the first call for it.
-/

set_option autoImplicit false
set_option relaxedAutoImplicit false

namespace OnceCell

variable {κ α : Type*} [DecidableEq κ]

/-- The value of a cell, which an empty one takes from the call. -/
def getOrInit (cells : κ → Option α) (key : κ) (value : α) : (κ → Option α) × α :=
  match cells key with
  | some kept => (cells, kept)
  | none => (Function.update cells key (some value), value)

/-- The answers to a sequence of calls. -/
def answers (cells : κ → Option α) : List (κ × α) → List α
  | [] => []
  | call :: rest =>
    (getOrInit cells call.1 call.2).2 :: answers (getOrInit cells call.1 call.2).1 rest

theorem getOrInit_of_some {cells : κ → Option α} {key : κ} {kept : α} (hkept : cells key = some kept)
    (value : α) : getOrInit cells key value = (cells, kept) := by
  rw [getOrInit, hkept]

theorem getOrInit_of_none {cells : κ → Option α} {key : κ} (hempty : cells key = none) (value : α) :
    getOrInit cells key value = (Function.update cells key (some value), value) := by
  rw [getOrInit, hempty]

/-- Every call is answered what its cell held at the start, or what the first call for it brought. -/
theorem getElem?_answers (cells : κ → Option α) (calls : List (κ × α)) (index : ℕ) :
    (answers cells calls)[index]? = calls[index]?.bind fun call ↦
      (cells call.1).or ((calls.find? (·.1 = call.1)).map Prod.snd) := by
  induction calls generalizing cells index with
  | nil => rfl
  | cons first rest ih =>
    cases index with
    | zero =>
      cases hcell : cells first.1 with
      | some kept => simp [answers, getOrInit_of_some hcell, hcell]
      | none => simp [answers, getOrInit_of_none hcell, hcell]
    | succ index =>
      rw [answers, List.getElem?_cons_succ, List.getElem?_cons_succ, ih]
      refine Option.bind_congr fun call _ ↦ ?_
      by_cases hsame : first.1 = call.1
      · cases hcell : cells first.1 with
        | some kept => simp [getOrInit_of_some hcell, ← hsame, hcell]
        | none => simp [getOrInit_of_none hcell, ← hsame, hcell]
      · have hcells : (getOrInit cells first.1 first.2).1 call.1 = cells call.1 := by
          cases hcell : cells first.1 with
          | some kept => rw [getOrInit_of_some hcell]
          | none =>
            rw [getOrInit_of_none hcell]
            exact Function.update_of_ne (Ne.symm hsame) _ _
        rw [hcells, List.find?_cons_of_neg (by simpa using hsame)]

end OnceCell
