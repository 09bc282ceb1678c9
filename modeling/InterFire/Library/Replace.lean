import Mathlib.Data.List.Basic

/-!
# Replacing characters and patterns in a text

`replaceChar` writes a text for every occurrence of a character, and `replaceAll` for every
occurrence of a pattern, from left to right and without overlaps.

A text that is written character by character is `text.flatMap token`. `replaceAll_flatMap` reads
such a text back token by token: it is enough to say what becomes of each token in front of any
rest. A token that is the pattern itself is replaced (`replaceAll_append`), and a character at which
the pattern does not start is kept (`replaceAll_cons`).
-/

set_option autoImplicit false
set_option relaxedAutoImplicit false

namespace Text

/-- Write a text for each occurrence of a character. -/
def replaceChar (character : Char) (replacement text : List Char) : List Char :=
  text.flatMap fun other ↦ if other = character then replacement else [other]

/-- Replace the occurrences of a pattern after skipping what is left of the last one. -/
def replaceFrom (pattern replacement : List Char) : ℕ → List Char → List Char
  | _, [] => []
  | skip + 1, _ :: rest => replaceFrom pattern replacement skip rest
  | 0, character :: rest =>
    if pattern.isPrefixOf (character :: rest) then
      replacement ++ replaceFrom pattern replacement (pattern.length - 1) rest
    else character :: replaceFrom pattern replacement 0 rest

/-- Write a text for each occurrence of a pattern, from left to right and without overlaps. -/
def replaceAll (pattern replacement text : List Char) : List Char :=
  replaceFrom pattern replacement 0 text

/-! ### Writing -/

/-- Replacing a character in a text that is written character by character. -/
theorem replaceChar_flatMap (character : Char) (replacement text : List Char)
    (token : Char → List Char) :
    replaceChar character replacement (text.flatMap token) =
      text.flatMap fun other ↦ replaceChar character replacement (token other) := by
  simp only [replaceChar, List.flatMap_assoc]

/-- A character that does not occur is not replaced. Assumes: it does not occur. -/
theorem replaceChar_of_not_mem {character : Char} {text : List Char} (hnone : character ∉ text)
    (replacement : List Char) : replaceChar character replacement text = text := by
  induction text with
  | nil => rfl
  | cons first rest ih =>
    obtain ⟨hfirst, hrest⟩ := not_or.mp (mt List.mem_cons.mpr hnone)
    have hkept := ih hrest
    unfold replaceChar at hkept ⊢
    rw [List.flatMap_cons, hkept, if_neg (Ne.symm hfirst), List.singleton_append]

/-! ### Reading back -/

@[simp] theorem replaceAll_nil (pattern replacement : List Char) :
    replaceAll pattern replacement [] = [] := rfl

theorem replaceFrom_length (pattern replacement skipped rest : List Char) :
    replaceFrom pattern replacement skipped.length (skipped ++ rest) =
      replaceFrom pattern replacement 0 rest := by
  induction skipped with
  | nil => rfl
  | cons first skipped ih => exact ih

/-- The pattern at the front is replaced. Assumes: it is not empty. -/
theorem replaceAll_append {pattern : List Char} (hpattern : pattern ≠ [])
    (replacement rest : List Char) :
    replaceAll pattern replacement (pattern ++ rest) =
      replacement ++ replaceAll pattern replacement rest := by
  obtain ⟨first, later, rfl⟩ := List.exists_cons_of_ne_nil hpattern
  have hbegins : (first :: later).isPrefixOf (first :: (later ++ rest)) = true :=
    List.isPrefixOf_iff_prefix.mpr (List.prefix_append (first :: later) rest)
  rw [List.cons_append, replaceAll, replaceFrom, if_pos hbegins, List.length_cons,
    Nat.add_sub_cancel, replaceFrom_length]
  rfl

/-- A character at which the pattern does not start is kept. Assumes: it does not start there. -/
theorem replaceAll_cons {pattern rest : List Char} {character : Char}
    (hnone : ¬ pattern <+: character :: rest) (replacement : List Char) :
    replaceAll pattern replacement (character :: rest) =
      character :: replaceAll pattern replacement rest := by
  have hbegins : ¬ pattern.isPrefixOf (character :: rest) = true :=
    mt List.isPrefixOf_iff_prefix.mp hnone
  rw [replaceAll, replaceFrom, if_neg hbegins]
  rfl

/-- A character that is not the first of the pattern is kept. Assumes: it is another one. -/
theorem replaceAll_cons_of_ne {first character : Char} (hne : character ≠ first)
    (later replacement rest : List Char) :
    replaceAll (first :: later) replacement (character :: rest) =
      character :: replaceAll (first :: later) replacement rest := by
  refine replaceAll_cons ?_ replacement
  rw [List.cons_prefix_cons]
  exact fun hbegins ↦ hne hbegins.1.symm

/-- Replacing a pattern in a text that is written character by character. Assumes: what becomes of
each token in front of any rest is known. -/
theorem replaceAll_flatMap {pattern replacement : List Char} {written read : Char → List Char}
    (htoken : ∀ character rest, replaceAll pattern replacement (written character ++ rest) =
      read character ++ replaceAll pattern replacement rest) (text : List Char) :
    replaceAll pattern replacement (text.flatMap written) = text.flatMap read := by
  induction text with
  | nil => rfl
  | cons character rest ih => rw [List.flatMap_cons, List.flatMap_cons, htoken, ih]

end Text
