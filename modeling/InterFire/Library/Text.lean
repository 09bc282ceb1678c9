import Mathlib.Algebra.GroupWithZero.Nat
import Mathlib.Algebra.Order.BigOperators.Group.List
import Mathlib.Algebra.Order.Group.Nat
import Mathlib.Data.List.Basic
import Mathlib.Data.List.TakeWhile

/-!
# Words, lines and decimal numerals of a text

A text is read as a list of characters. `words` splits at white space and drops empty pieces,
`wordLines` is the list of the words of every line that has any, and `parseUnsigned` reads an
unsigned decimal numeral below a bound, with an optional plus sign.

`splitOnce` cuts a text at a separator, `splitN` at the first few, and `join` puts pieces together
with one. `fileLines` is what a buffered reader makes of a file.

`wordLines_append` and `words_append` split a text at a newline and at a space, so that the words
of a text assembled piece by piece are computed piece by piece. `parseUnsigned_toDigits` is the
round trip of decimal numerals.
-/

set_option autoImplicit false
set_option relaxedAutoImplicit false

namespace Text

/-! ### White space -/

/-- The characters with the Unicode property White_Space. -/
def isWhitespace (character : Char) : Bool :=
  let code := character.toNat
  (9 ≤ code && code ≤ 13) || code == 0x20 || code == 0x85 || code == 0xA0 || code == 0x1680 ||
    (0x2000 ≤ code && code ≤ 0x200A) || code == 0x2028 || code == 0x2029 || code == 0x202F ||
    code == 0x205F || code == 0x3000

/-- A text without the white space at its two ends. -/
def trim (text : List Char) : List Char :=
  ((text.dropWhile isWhitespace).reverse.dropWhile isWhitespace).reverse

/-- ASCII letters in lower case, other characters unchanged. -/
def toAsciiLowercase (text : String) : String := String.ofList (text.toList.map Char.toLower)

/-- The pieces of a text between white space. -/
def words (text : List Char) : List String :=
  ((text.splitOnP isWhitespace).filter (· ≠ [])).map String.ofList

/-- The words of each line that has any. -/
def wordLines (text : List Char) : List (List String) :=
  ((text.splitOnP (· == '\n')).map words).filter (· ≠ [])

@[simp] theorem words_nil : words [] = [] := rfl

/-- The pieces of a split contain no separator. Assumes: it is one of them. -/
theorem not_of_mem_splitOnP {α : Type*} {separates : α → Bool} {items piece : List α}
    (hmem : piece ∈ items.splitOnP separates) : ∀ item ∈ piece, separates item = false := by
  induction items generalizing piece with
  | nil =>
    obtain rfl : piece = [] := by simpa using hmem
    exact nofun
  | cons first rest ih =>
    rw [List.splitOnP_cons_eq_if_modifyHead] at hmem
    split_ifs at hmem with hfirst
    · rcases List.mem_cons.mp hmem with rfl | hrest
      · exact nofun
      · exact ih hrest
    · cases hsplit : rest.splitOnP separates with
      | nil => exact absurd hsplit (List.splitOnP_ne_nil separates rest)
      | cons head tail =>
        rw [hsplit] at ih
        rw [hsplit, List.modifyHead_cons] at hmem
        rcases List.mem_cons.mp hmem with rfl | hlater
        · intro item hitem
          rcases List.mem_cons.mp hitem with rfl | hhead
          · exact Bool.eq_false_iff.mpr hfirst
          · exact ih List.mem_cons_self item hhead
        · exact ih (List.mem_cons_of_mem head hlater)

/-- Splitting at a white-space character. -/
theorem words_append (first rest : List Char) {space : Char} (hspace : isWhitespace space = true) :
    words (first ++ space :: rest) = words first ++ words rest := by
  simp [words, List.splitOnP_append_cons first rest hspace]

/-- White space at the front belongs to no word. -/
theorem words_dropWhile (text : List Char) :
    words (text.dropWhile isWhitespace) = words text := by
  induction text with
  | nil => rfl
  | cons character rest ih =>
    by_cases hspace : isWhitespace character = true
    · rw [List.dropWhile_cons_of_pos hspace, ih, ← List.nil_append (character :: rest),
        words_append [] rest hspace, words_nil, List.nil_append]
    · rw [List.dropWhile_cons_of_neg hspace]

/-- A text of white space has no words. -/
theorem words_eq_nil {text : List Char}
    (hspace : ∀ character ∈ text, isWhitespace character = true) : words text = [] := by
  rw [← words_dropWhile, List.dropWhile_eq_nil_iff.mpr hspace, words_nil]

/-- A nonempty text without white space is one word. -/
theorem words_of_solid {text : List Char} (hne : text ≠ [])
    (hsolid : ∀ character ∈ text, isWhitespace character = false) :
    words text = [String.ofList text] := by
  simp [words, List.splitOnP_eq_singleton hsolid, hne]

/-- A word: a nonempty text without white space. -/
def IsWord (word : String) : Prop :=
  word.toList ≠ [] ∧ ∀ character ∈ word.toList, isWhitespace character = false

instance (word : String) : Decidable (IsWord word) :=
  @instDecidableAnd _ _ inferInstance
    (List.decidableBAll (fun character ↦ isWhitespace character = false) word.toList)

theorem words_of_isWord {word : String} (hword : IsWord word) : words word.toList = [word] := by
  rw [words_of_solid hword.1 hword.2, String.ofList_toList]

/-- The pieces between white space are words. Assumes: it is one of them. -/
theorem isWord_of_mem_words {text : List Char} {word : String} (hmem : word ∈ words text) :
    IsWord word := by
  simp only [words, List.mem_map, List.mem_filter, decide_eq_true_eq] at hmem
  obtain ⟨piece, ⟨hpiece, hne⟩, rfl⟩ := hmem
  rw [IsWord, String.toList_ofList]
  exact ⟨hne, not_of_mem_splitOnP hpiece⟩

/-- Two words without space between them. Assumes: both are words. -/
theorem isWord_append {first second : String} (hfirst : IsWord first) (hsecond : IsWord second) :
    IsWord (first ++ second) := by
  rw [IsWord, String.toList_append]
  refine ⟨by simp [hfirst.1], fun character hmem ↦ ?_⟩
  rcases List.mem_append.mp hmem with hleft | hright
  · exact hfirst.2 character hleft
  · exact hsecond.2 character hright

/-! ### Lower case -/

/-- Only the code of an ASCII capital is moved. -/
theorem toNat_toLower (character : Char) :
    character.toLower.toNat =
      if 65 ≤ character.toNat ∧ character.toNat ≤ 90 then character.toNat + 32
      else character.toNat := by
  unfold Char.toLower
  by_cases hcapital : character.val ≥ 'A'.val ∧ character.val ≤ 'Z'.val
  · have hcode : 65 ≤ character.toNat ∧ character.toNat ≤ 90 := hcapital
    have hshift : ('a'.val - 'A'.val).toNat = 32 := rfl
    rw [dif_pos hcapital, if_pos hcode]
    change (character.val + ('a'.val - 'A'.val)).toNat = character.val.toNat + 32
    have hsmall : character.val.toNat ≤ 90 := hcode.2
    rw [UInt32.toNat_add, hshift]
    omega
  · have hcode : ¬ (65 ≤ character.toNat ∧ character.toNat ≤ 90) := hcapital
    rw [dif_neg hcapital, if_neg hcode]

/-- Only a symbol itself becomes the symbol. Assumes: it is no ASCII letter. -/
theorem toLower_eq_iff {symbol : Char}
    (hsymbol : ¬ (65 ≤ symbol.toNat ∧ symbol.toNat ≤ 90) ∧
      ¬ (97 ≤ symbol.toNat ∧ symbol.toNat ≤ 122)) (character : Char) :
    character.toLower = symbol ↔ character = symbol := by
  rw [← Char.toNat_inj, ← Char.toNat_inj, toNat_toLower]
  split_ifs with hcapital
  · omega
  · rfl

theorem toList_toAsciiLowercase (text : String) :
    (toAsciiLowercase text).toList = text.toList.map Char.toLower := String.toList_ofList

/-- A symbol is in a text in lower case exactly when it is in the text. Assumes: it is no ASCII
letter. -/
theorem mem_toAsciiLowercase_iff {symbol : Char}
    (hsymbol : ¬ (65 ≤ symbol.toNat ∧ symbol.toNat ≤ 90) ∧
      ¬ (97 ≤ symbol.toNat ∧ symbol.toNat ≤ 122)) (text : String) :
    symbol ∈ (toAsciiLowercase text).toList ↔ symbol ∈ text.toList := by
  simp only [toList_toAsciiLowercase, List.mem_map, toLower_eq_iff hsymbol, exists_eq_right]

/-! ### Lines of words -/

/-- The words of a text followed by a newline are the words of its lines. -/
theorem wordLines_append (first rest : List Char) :
    wordLines (first ++ '\n' :: rest) = wordLines first ++ wordLines rest := by
  have hsplit := List.splitOnP_append_cons (p := (· == '\n')) first rest
    (show ('\n' == '\n') = true from rfl)
  simp [wordLines, hsplit]

/-- A text without a newline is one line. -/
theorem wordLines_of_line {text : List Char} (hline : ∀ character ∈ text, character ≠ '\n') :
    wordLines text = [words text].filter (· ≠ []) := by
  have hsingle : text.splitOnP (· == '\n') = [text] :=
    List.splitOnP_eq_singleton fun character hmem ↦ by simpa using hline character hmem
  rw [wordLines, hsingle]
  rfl

@[simp] theorem wordLines_nil : wordLines [] = [] := rfl

/-- The lines of two texts, the first of which ends in a newline. -/
theorem wordLines_append_of_newline {first : List Char} (rest : List Char)
    (hend : ∃ body, first = body ++ ['\n']) :
    wordLines (first ++ rest) = wordLines first ++ wordLines rest := by
  obtain ⟨body, rfl⟩ := hend
  rw [List.append_assoc, List.singleton_append, wordLines_append, wordLines_append]
  simp

/-- A text with one newline, at its end. -/
def OneLine (text : List Char) : Prop := ∃ body, text = body ++ ['\n'] ∧ '\n' ∉ body

/-! ### Separators -/

/-- The text up to the first separator, and what follows it when there is one. -/
def splitOnce (separator : Char) (text : List Char) : List Char × Option (List Char) :=
  match text.dropWhile (· ≠ separator) with
  | [] => (text, none)
  | _ :: rest => (text.takeWhile (· ≠ separator), some rest)

/-- The pieces with the separator between them. -/
def join (separator : Char) (pieces : List (List Char)) : List Char :=
  [separator].intercalate pieces

/-- A text is cut at a separator. Assumes: what precedes it does not contain it. -/
theorem splitOnce_append {separator : Char} {first : List Char} (hfirst : separator ∉ first)
    (rest : List Char) : splitOnce separator (first ++ separator :: rest) = (first, some rest) := by
  have hall : ∀ character ∈ first, (decide (character ≠ separator)) = true := by
    intro character hmem
    have hne : character ≠ separator := fun heq ↦ hfirst (heq ▸ hmem)
    simpa using hne
  rw [splitOnce, List.dropWhile_append_of_pos hall, List.takeWhile_append_of_pos hall]
  simp

/-- Joined pieces are split again. Assumes: there is one, and none contains the separator. -/
theorem splitOn_join {separator : Char} {pieces : List (List Char)} (hne : pieces ≠ [])
    (hpieces : ∀ piece ∈ pieces, separator ∉ piece) :
    (join separator pieces).splitOn separator = pieces :=
  List.splitOn_intercalate separator hpieces hne

theorem join_cons_cons (separator : Char) (first second : List Char) (rest : List (List Char)) :
    join separator (first :: second :: rest) =
      first ++ separator :: join separator (second :: rest) := by
  simp [join, List.intercalate]

/-- The words of pieces that are joined with a space are those of the pieces. -/
theorem words_join (pieces : List (List Char)) :
    words (join ' ' pieces) = (pieces.map words).flatten := by
  induction pieces with
  | nil => rfl
  | cons first rest ih =>
    cases rest with
    | nil => simp [join]
    | cons second rest =>
      rw [join_cons_cons, words_append _ _ (by decide), ih]
      rfl

/-- Words that are joined with spaces are split again. Assumes: each is a word. -/
theorem words_join_of_isWord {line : List String} (hline : ∀ word ∈ line, IsWord word) :
    words (join ' ' (line.map String.toList)) = line := by
  rw [words_join, List.map_map]
  induction line with
  | nil => rfl
  | cons first rest ih =>
    rw [List.map_cons, List.flatten_cons, ih fun word hword ↦ hline word (.tail first hword),
      Function.comp_apply, words_of_isWord (hline first List.mem_cons_self)]
    rfl

/-- The pieces of a text, at most `limit` of them; the last one may contain the separator. -/
def splitN (separator : Char) : ℕ → List Char → List (List Char)
  | 0, _ => []
  | 1, text => [text]
  | limit + 2, text =>
    match splitOnce separator text with
    | (first, none) => [first]
    | (first, some rest) => first :: splitN separator (limit + 1) rest

/-- Joined pieces are split again. Assumes: there is one, and none contains the separator. -/
theorem splitN_join {separator : Char} {pieces : List (List Char)} (hne : pieces ≠ [])
    (hpieces : ∀ piece ∈ pieces, separator ∉ piece) :
    splitN separator pieces.length (join separator pieces) = pieces := by
  induction pieces with
  | nil => exact absurd rfl hne
  | cons first rest ih =>
    cases rest with
    | nil => simp [splitN, join]
    | cons second rest =>
      have hfirst := hpieces first List.mem_cons_self
      have hrest := ih (by simp) fun piece hpiece ↦ hpieces piece (.tail first hpiece)
      rw [List.length_cons] at hrest
      rw [List.length_cons, List.length_cons, join_cons_cons, splitN, splitOnce_append hfirst]
      exact congrArg (first :: ·) hrest

/-- What precedes the first separator does not contain it. -/
theorem not_mem_splitOnce (separator : Char) (text : List Char) :
    separator ∉ (splitOnce separator text).1 := by
  unfold splitOnce
  split
  · next hnone =>
    have hall := List.dropWhile_eq_nil_iff.mp hnone
    intro hmem
    simpa using hall separator hmem
  · intro hmem
    simpa using List.mem_takeWhile_imp hmem

/-- A text is what precedes the first separator, the separator and what follows it. Assumes: there is
one. -/
theorem eq_append_of_splitOnce {separator : Char} {text first rest : List Char}
    (hsplit : splitOnce separator text = (first, some rest)) : text = first ++ separator :: rest := by
  have htext := @List.takeWhile_append_dropWhile _ (fun other ↦ decide (other ≠ separator)) text
  unfold splitOnce at hsplit
  split at hsplit
  · cases hsplit
  · next head later hdrop =>
    obtain ⟨rfl, hrest⟩ := Prod.mk.inj hsplit
    obtain rfl := Option.some.inj hrest
    have hhead : head = separator := by
      have hstop := List.head?_dropWhile_not (fun other ↦ decide (other ≠ separator)) text
      rw [hdrop] at hstop
      simpa using hstop
    rw [hdrop, hhead] at htext
    exact htext.symm

/-- A text without a separator is kept. Assumes: there is none. -/
theorem eq_of_splitOnce {separator : Char} {text first : List Char}
    (hsplit : splitOnce separator text = (first, none)) : text = first := by
  unfold splitOnce at hsplit
  split at hsplit
  · exact congrArg Prod.fst hsplit
  · cases hsplit

/-- What follows the first separator is made of the characters of the text. Assumes: it is a
character of that. -/
theorem mem_of_mem_splitOnce {separator character : Char} {text first rest : List Char}
    (hsplit : splitOnce separator text = (first, some rest)) (hmem : character ∈ rest) :
    character ∈ text := by
  rw [eq_append_of_splitOnce hsplit]
  exact List.mem_append_right first (List.mem_cons_of_mem separator hmem)

theorem splitN_ne_nil (separator : Char) (limit : ℕ) (text : List Char) :
    splitN separator (limit + 1) text ≠ [] := by
  cases limit with
  | zero => exact List.cons_ne_nil text []
  | succ limit =>
    rw [splitN]
    split
    · exact List.cons_ne_nil _ []
    · exact List.cons_ne_nil _ _

theorem length_splitN_le (separator : Char) (limit : ℕ) (text : List Char) :
    (splitN separator limit text).length ≤ limit := by
  induction limit, text using splitN.induct separator with
  | case1 => exact le_rfl
  | case2 text => exact le_rfl
  | case3 limit text first hcut =>
    rw [splitN, hcut]
    exact Nat.le_add_left 1 (limit + 1)
  | case4 limit text first rest hcut ih =>
    rw [splitN, hcut]
    exact Nat.succ_le_succ ih

/-- The pieces of a text are joined again. -/
theorem join_splitN (separator : Char) (limit : ℕ) (text : List Char) :
    join separator (splitN separator (limit + 1) text) = text := by
  induction limit generalizing text with
  | zero => simp [splitN, join]
  | succ limit ih =>
    rw [splitN]
    split
    · next first hcut =>
      rw [eq_of_splitOnce hcut]
      simp [join]
    · next first rest hcut =>
      obtain ⟨second, later, hlater⟩ := List.exists_cons_of_ne_nil (splitN_ne_nil separator limit rest)
      rw [hlater, join_cons_cons, ← hlater, ih, eq_append_of_splitOnce hcut]

/-- The pieces before the last one do not contain the separator. Assumes: there are at least
two. -/
theorem not_mem_of_splitN {separator : Char} {limit : ℕ} {text first second : List Char}
    {rest : List (List Char)} (hsplit : splitN separator limit text = first :: second :: rest) :
    separator ∉ first ∧
      ∃ later, splitN separator (limit - 1) later = second :: rest := by
  match limit with
  | 0 => cases hsplit
  | 1 => cases hsplit
  | limit + 2 =>
    have hfirst := not_mem_splitOnce separator text
    rw [splitN] at hsplit
    split at hsplit
    · cases hsplit
    · next head later hcut =>
      obtain ⟨rfl, hlater⟩ := List.cons.inj hsplit
      rw [hcut] at hfirst
      exact ⟨hfirst, later, hlater⟩

/-- Joined pieces end as the last of them does. Assumes: the last one is not empty. -/
theorem getLast?_join {separator : Char} {last : List Char} (hlast : last ≠ [])
    (pieces : List (List Char)) :
    (join separator (pieces ++ [last])).getLast? = last.getLast? := by
  induction pieces with
  | nil => simp [join]
  | cons first rest ih =>
    obtain ⟨second, later, hrest⟩ : ∃ second later, rest ++ [last] = second :: later := by
      cases rest with
      | nil => exact ⟨last, [], rfl⟩
      | cons second rest => exact ⟨second, rest ++ [last], rfl⟩
    have hsome : last.getLast?.isSome = true := by simpa using hlast
    obtain ⟨character, hcharacter⟩ := Option.isSome_iff_exists.mp hsome
    rw [hrest] at ih
    rw [List.cons_append, hrest, join_cons_cons, List.getLast?_append, List.getLast?_cons, ih,
      hcharacter]
    rfl

/-- The characters of joined pieces are those of the pieces and the separator. Assumes: it is
one. -/
theorem mem_of_mem_join {separator character : Char} {pieces : List (List Char)}
    (hmem : character ∈ join separator pieces) :
    character = separator ∨ ∃ piece ∈ pieces, character ∈ piece := by
  induction pieces with
  | nil => simp [join] at hmem
  | cons first rest ih =>
    cases rest with
    | nil => exact .inr ⟨first, List.mem_cons_self, by simpa [join] using hmem⟩
    | cons second rest =>
      rw [join_cons_cons, List.mem_append, List.mem_cons] at hmem
      rcases hmem with hfirst | hseparator | hrest
      · exact .inr ⟨first, List.mem_cons_self, hfirst⟩
      · exact .inl hseparator
      · rcases ih hrest with hseparator | ⟨piece, hpiece, hcharacter⟩
        · exact .inl hseparator
        · exact .inr ⟨piece, List.mem_cons_of_mem first hpiece, hcharacter⟩

/-- The characters of a piece are among those of the joined text. Assumes: it is one of the
pieces. -/
theorem mem_join_of_mem {separator character : Char} {piece : List Char} {pieces : List (List Char)}
    (hpiece : piece ∈ pieces) (hmem : character ∈ piece) : character ∈ join separator pieces := by
  induction pieces with
  | nil => cases hpiece
  | cons first rest ih =>
    cases rest with
    | nil =>
      obtain rfl := List.mem_singleton.mp hpiece
      simpa [join] using hmem
    | cons second rest =>
      rw [join_cons_cons, List.mem_append, List.mem_cons]
      rcases List.mem_cons.mp hpiece with rfl | hlater
      · exact .inl hmem
      · exact .inr (.inr (ih hlater))

/-- The pieces are made of the characters of the text. Assumes: it is a character of one of them. -/
theorem mem_of_mem_splitN {separator : Char} {limit : ℕ} {text piece : List Char}
    (hpiece : piece ∈ splitN separator limit text) {character : Char}
    (hmem : character ∈ piece) : character ∈ text := by
  cases limit with
  | zero => cases hpiece
  | succ limit =>
    rw [← join_splitN separator limit text]
    exact mem_join_of_mem hpiece hmem

/-- Two lists of pieces are joined separately. Assumes: neither is empty. -/
theorem join_append {separator : Char} {first second : List (List Char)} (hfirst : first ≠ [])
    (hsecond : second ≠ []) :
    join separator (first ++ second) =
      join separator first ++ separator :: join separator second := by
  induction first with
  | nil => exact absurd rfl hfirst
  | cons piece rest ih =>
    cases rest with
    | nil =>
      obtain ⟨next, later, rfl⟩ := List.exists_cons_of_ne_nil hsecond
      rw [List.singleton_append, join_cons_cons]
      simp [join]
    | cons next later =>
      rw [List.cons_append, List.cons_append, join_cons_cons, ← List.cons_append,
        ih (List.cons_ne_nil _ _), join_cons_cons, List.append_assoc, List.cons_append]

/-- Consecutive pieces are joined to a part of the joined text. Assumes: there is one. -/
theorem join_infix_join {separator : Char} {part pieces : List (List Char)} (hne : part ≠ [])
    (hpart : part <:+: pieces) : join separator part <:+: join separator pieces := by
  obtain ⟨before, after, rfl⟩ := hpart
  have hfront : join separator part <:+: join separator (part ++ after) := by
    by_cases hafter : after = []
    · have hwhole : part = part ++ after := by rw [hafter, List.append_nil]
      exact hwhole ▸ List.infix_rfl
    · rw [join_append hne hafter]
      exact List.infix_append_left
  by_cases hbefore : before = []
  · rw [hbefore, List.nil_append]
    exact hfront
  · rw [List.append_assoc, join_append hbefore (by simp [hne])]
    exact hfront.trans ((List.suffix_cons _ _).isInfix.trans List.infix_append_right)

/-- A part of a joined text without the separator lies in one of the pieces. Assumes: the part is not
empty and does not contain the separator. -/
theorem exists_infix_of_infix_join {separator : Char} {part : List Char}
    {pieces : List (List Char)} (hne : part ≠ []) (hseparator : separator ∉ part)
    (hpart : part <:+: join separator pieces) : ∃ piece ∈ pieces, part <:+: piece := by
  induction pieces with
  | nil => exact absurd (List.infix_nil.mp (by simpa [join] using hpart)) hne
  | cons first rest ih =>
    cases rest with
    | nil => exact ⟨first, List.mem_cons_self, by simpa [join] using hpart⟩
    | cons second rest =>
      rw [join_cons_cons, List.infix_append_iff] at hpart
      rcases hpart with hfirst | hrest | ⟨left, right, rfl, hleft, hright⟩
      · exact ⟨first, List.mem_cons_self, hfirst⟩
      · rcases List.infix_cons_iff.mp hrest with hprefix | hlater
        · obtain ⟨head, tail, rfl⟩ := List.exists_cons_of_ne_nil hne
          obtain rfl := (List.cons_prefix_cons.mp hprefix).1
          exact absurd List.mem_cons_self hseparator
        · obtain ⟨piece, hpiece, hpart⟩ := ih hlater
          exact ⟨piece, List.mem_cons_of_mem first hpiece, hpart⟩
      · cases right with
        | nil => exact ⟨first, List.mem_cons_self, by simpa using hleft.isInfix⟩
        | cons head tail =>
          obtain rfl := (List.cons_prefix_cons.mp hright).1
          exact absurd (List.mem_append_right left List.mem_cons_self) hseparator

/-- The pieces of a split are made of the characters of the text. Assumes: it is a character of one
of them. -/
theorem mem_of_mem_splitOn {separator character : Char} {text piece : List Char}
    (hpiece : piece ∈ text.splitOn separator) (hmem : character ∈ piece) : character ∈ text := by
  rw [← @List.intercalate_splitOn _ text _ _ separator]
  exact mem_join_of_mem hpiece hmem

/-! ### Lines of a file -/

/-- The length of a text in bytes. -/
def byteLength (text : List Char) : ℕ := (text.map Char.utf8Size).sum

/-- A line without the carriage return at its end. -/
def stripReturn (line : List Char) : List Char :=
  if line.getLast? = some '\r' then line.dropLast else line

/-- The lines of a file: each newline ends one, together with a carriage return before it, and what
follows the last newline is one more, unless it is empty. -/
def fileLines (text : List Char) : List (List Char) :=
  let pieces := text.splitOn '\n'
  pieces.dropLast.map stripReturn ++ [pieces.getLast?.getD []].filter (· ≠ [])

@[simp] theorem byteLength_append (first second : List Char) :
    byteLength (first ++ second) = byteLength first + byteLength second := by
  simp [byteLength]

theorem byteLength_cons (character : Char) (text : List Char) :
    byteLength (character :: text) = character.utf8Size + byteLength text := by
  simp [byteLength]

theorem byteLength_mono {first text : List Char} (hstart : first <+: text) :
    byteLength first ≤ byteLength text := by
  obtain ⟨rest, rfl⟩ := hstart
  rw [byteLength_append]
  exact Nat.le_add_right _ _

/-- The bytes of texts one after the other. -/
theorem byteLength_flatMap {α : Type*} (items : List α) (write : α → List Char) :
    byteLength (items.flatMap write) = (items.map fun item ↦ byteLength (write item)).sum := by
  induction items with
  | nil => rfl
  | cons first rest ih => simp [ih]

/-- The bytes of joined pieces, with one more separator. Assumes: there is a piece, and the separator
takes one byte. -/
theorem byteLength_join_add_one {separator : Char} (hseparator : separator.utf8Size = 1)
    {pieces : List (List Char)} (hne : pieces ≠ []) :
    byteLength (join separator pieces) + 1 =
      (pieces.map fun piece ↦ byteLength piece + 1).sum := by
  induction pieces with
  | nil => exact absurd rfl hne
  | cons first rest ih =>
    cases rest with
    | nil => simp [join]
    | cons second rest =>
      rw [join_cons_cons, byteLength_append, byteLength_cons, hseparator, List.map_cons,
        List.sum_cons, ← ih (by simp)]
      omega

/-- The pieces of a split have no more bytes than the text. -/
theorem sum_byteLength_splitOnP_le (separates : Char → Bool) (text : List Char) :
    ((text.splitOnP separates).map byteLength).sum ≤ byteLength text := by
  induction text with
  | nil => simp [byteLength]
  | cons first rest ih =>
    have hcons : byteLength (first :: rest) = first.utf8Size + byteLength rest := by
      simp [byteLength]
    rw [List.splitOnP_cons_eq_if_modifyHead, hcons]
    split_ifs
    · rw [List.map_cons, List.sum_cons]
      have hnil : byteLength [] = 0 := rfl
      omega
    · cases hsplit : rest.splitOnP separates with
      | nil => exact absurd hsplit (List.splitOnP_ne_nil separates rest)
      | cons head tail =>
        have hhead : byteLength (first :: head) = first.utf8Size + byteLength head := by
          simp [byteLength]
        rw [hsplit, List.map_cons, List.sum_cons] at ih
        rw [List.modifyHead_cons, List.map_cons, List.sum_cons, hhead]
        omega

/-- The words of a text have no more bytes than the text. -/
theorem sum_byteLength_words_le (text : List Char) :
    ((words text).map fun word ↦ byteLength word.toList).sum ≤ byteLength text := by
  refine le_trans ?_ (sum_byteLength_splitOnP_le isWhitespace text)
  rw [words, List.map_map]
  simp only [Function.comp_def, String.toList_ofList]
  exact List.Sublist.sum_le_sum (List.filter_sublist.map byteLength) fun _ _ ↦ Nat.zero_le _

/-- Lines that are written one after the other are split again. Assumes: none has a newline. -/
theorem splitOn_flatMap_newline {lines : List (List Char)} (hlines : ∀ line ∈ lines, '\n' ∉ line) :
    (lines.flatMap (· ++ ['\n'])).splitOn '\n' = lines ++ [[]] := by
  induction lines with
  | nil => rfl
  | cons first rest ih =>
    have hfirst : first.splitOn '\n' = [first] := by
      refine List.splitOnP_eq_singleton fun character hmem ↦ ?_
      have hne : character ≠ '\n' := fun heq ↦ hlines first List.mem_cons_self (heq ▸ hmem)
      simpa using hne
    have hrest := ih fun line hline ↦ hlines line (.tail first hline)
    rw [List.flatMap_cons, List.append_assoc, List.singleton_append]
    unfold List.splitOn at hfirst hrest ⊢
    rw [List.splitOnP_append_cons _ _ (by simp), hfirst, hrest]
    rfl

/-- Lines that are written one after the other are read again. Assumes: none has a newline or ends
with a carriage return. -/
theorem fileLines_flatMap {lines : List (List Char)} (hlines : ∀ line ∈ lines, '\n' ∉ line)
    (hreturns : ∀ line ∈ lines, line.getLast? ≠ some '\r') :
    fileLines (lines.flatMap (· ++ ['\n'])) = lines := by
  have hstrip : lines.map stripReturn = lines := by
    refine (List.map_congr_left fun line hline ↦ ?_).trans (List.map_id lines)
    rw [stripReturn, if_neg (hreturns line hline)]
    rfl
  rw [fileLines, splitOn_flatMap_newline hlines]
  simp [hstrip]

/-! ### Decimal numerals -/

/-- The value of a nonempty string of decimal digits. -/
def parseDigits (text : List Char) : Option ℕ :=
  if text ≠ [] ∧ text.all Char.isDigit then some (Nat.ofDigitChars 10 text 0) else none

/-- An unsigned decimal numeral below `bound`, with an optional plus sign. -/
def parseUnsigned (bound : ℕ) (text : List Char) : Option ℕ :=
  let digits := match text with
    | '+' :: rest => rest
    | _ => text
  (parseDigits digits).filter (· < bound)

theorem parseDigits_toDigits (value : ℕ) : parseDigits (Nat.toDigits 10 value) = some value := by
  have hdigits : (Nat.toDigits 10 value).all Char.isDigit = true :=
    List.all_eq_true.mpr fun _ hmem ↦
      Nat.isDigit_of_mem_toDigits (by decide) (by decide) hmem
  simp [parseDigits, Nat.toDigits_ne_nil, hdigits]

/-- What parses as an unsigned numeral has digits and a plus sign only. Assumes: it parses. -/
theorem isDigit_of_parseUnsigned {bound value : ℕ} {text : List Char}
    (hparse : parseUnsigned bound text = some value) :
    ∀ character ∈ text, character = '+' ∨ character.isDigit = true := by
  have hdigits {digits : List Char}
      (hsome : (parseDigits digits).filter (· < bound) = some value) :
      ∀ character ∈ digits, character.isDigit = true := by
    obtain ⟨hvalue, _⟩ := Option.filter_eq_some_iff.mp hsome
    unfold parseDigits at hvalue
    split_ifs at hvalue with hall
    exact List.all_eq_true.mp hall.2
  unfold parseUnsigned at hparse
  dsimp only at hparse
  split at hparse
  · intro character hmem
    rcases List.mem_cons.mp hmem with rfl | hrest
    · exact .inl rfl
    · exact .inr (hdigits hparse character hrest)
  · exact fun character hmem ↦ .inr (hdigits hparse character hmem)

/-- What parses as an unsigned numeral is below the bound. Assumes: it parses. -/
theorem lt_of_parseUnsigned {bound value : ℕ} {text : List Char}
    (hparse : parseUnsigned bound text = some value) : value < bound :=
  of_decide_eq_true (Option.filter_eq_some_iff.mp hparse).2

/-- A digit is neither white space nor a sign. -/
theorem not_isWhitespace_of_isDigit {character : Char} (hdigit : character.isDigit = true) :
    isWhitespace character = false := by
  simp only [Char.isDigit, Bool.and_eq_true, decide_eq_true_eq] at hdigit
  have hlow : 48 ≤ character.toNat := hdigit.1
  have hhigh : character.toNat ≤ 57 := hdigit.2
  simp only [isWhitespace, Bool.or_eq_false_iff, Bool.and_eq_false_iff, decide_eq_false_iff_not,
    beq_eq_false_iff_ne]
  omega

theorem not_isWhitespace_of_mem_toDigits {value : ℕ} {character : Char}
    (hmem : character ∈ Nat.toDigits 10 value) : isWhitespace character = false :=
  not_isWhitespace_of_isDigit (Nat.isDigit_of_mem_toDigits (by decide) (by decide) hmem)

/-- A numeral has digits only, so it contains no other character. Assumes: the character is no
digit. -/
theorem not_mem_toDigits {character : Char} (hcharacter : character.isDigit = false) (value : ℕ) :
    character ∉ Nat.toDigits 10 value := by
  intro hmem
  have hdigit : character.isDigit = true :=
    Nat.isDigit_of_mem_toDigits (by decide) (by decide) hmem
  rw [hcharacter] at hdigit
  cases hdigit

/-- The decimal numeral of a number reads back as that number. Assumes: the number is below the
bound. -/
theorem parseUnsigned_toDigits {bound value : ℕ} (hlt : value < bound) :
    parseUnsigned bound (Nat.toDigits 10 value) = some value := by
  have hunsigned : ∀ rest, Nat.toDigits 10 value ≠ '+' :: rest := by
    intro rest hsign
    have hplus : '+' ∉ Nat.toDigits 10 value := not_mem_toDigits (by decide) value
    exact hplus (hsign ▸ List.mem_cons_self)
  unfold parseUnsigned
  split
  · next rest hsign => exact absurd hsign (hunsigned rest)
  · simp [parseDigits_toDigits, hlt]

/-- The numeral of a number is one word. -/
theorem words_toDigits (value : ℕ) :
    words (Nat.toDigits 10 value) = [String.ofList (Nat.toDigits 10 value)] :=
  words_of_solid Nat.toDigits_ne_nil fun _ hmem ↦ not_isWhitespace_of_mem_toDigits hmem

/-- The numeral of a positive number begins with a digit from one to nine. Assumes: it is positive. -/
theorem exists_head_toDigits {value : ℕ} (hpos : 0 < value) :
    ∃ digit rest, Nat.toDigits 10 value = digit :: rest ∧ 49 ≤ digit.toNat ∧ digit.toNat ≤ 57 := by
  induction value using Nat.strongRecOn with
  | ind value ih =>
    by_cases hsmall : value < 10
    · refine ⟨value.digitChar, [], Nat.toDigits_of_lt_base hsmall, ?_⟩
      rw [Nat.toNat_digitChar_of_lt_ten hsmall]
      omega
    · obtain ⟨digit, rest, hdigits, hrange⟩ := ih (value / 10) (by omega) (by omega)
      refine ⟨digit, rest ++ [(value % 10).digitChar], ?_, hrange⟩
      rw [Nat.toDigits_of_base_le (by decide) (by omega), hdigits, List.cons_append]

/-- A text that begins with a digit from one to nine reads as no number with a shorter numeral.
Assumes: it begins so, and reads as the number. -/
theorem length_le_of_parseUnsigned {bound value : ℕ} {digit : Char} {rest : List Char}
    (hdigit : 49 ≤ digit.toNat) (hparse : parseUnsigned bound (digit :: rest) = some value) :
    (digit :: rest).length ≤ (Nat.toDigits 10 value).length := by
  have hvalue : value = Nat.ofDigitChars 10 (digit :: rest) 0 := by
    unfold parseUnsigned at hparse
    dsimp only at hparse
    split at hparse
    · next digits hsign =>
      obtain ⟨rfl, _⟩ := List.cons.inj hsign
      exact absurd hdigit (by decide)
    · obtain ⟨hsome, _⟩ := Option.filter_eq_some_iff.mp hparse
      unfold parseDigits at hsome
      split_ifs at hsome
      exact (Option.some.inj hsome).symm
  have hlarge : 10 ^ rest.length ≤ value := by
    rw [hvalue, Nat.ofDigitChars_cons, Nat.ofDigitChars_eq_ofDigitChars_zero]
    refine (Nat.le_mul_of_pos_right _ ?_).trans (Nat.le_add_right _ _)
    have hzero : '0'.toNat = 48 := rfl
    omega
  cases rest with
  | nil => exact Nat.length_toDigits_pos
  | cons second rest =>
    by_contra hshort
    have hlt := (Nat.length_toDigits_le_iff (by decide) (Nat.succ_pos rest.length)).mp
      (Nat.lt_succ_iff.mp (not_le.mp hshort))
    exact absurd hlarge (not_le.mpr hlt)

theorem byteLength_of_parseUnsigned {bound value : ℕ} {text : List Char}
    (hparse : parseUnsigned bound text = some value) : byteLength text = text.length := by
  have hone : ∀ character ∈ text, character.utf8Size = 1 := by
    intro character hmem
    rcases isDigit_of_parseUnsigned hparse character hmem with rfl | hdigit
    · rfl
    · rw [Char.utf8Size_eq_one_iff]
      simp only [Char.isDigit, Bool.and_eq_true, decide_eq_true_eq] at hdigit
      exact UInt32.le_trans hdigit.2 (by decide)
  rw [byteLength, List.map_congr_left hone, List.map_const', List.sum_replicate]
  simp

/-! ### Numerals and why they fail -/

/-- Why a text is no unsigned numeral of a machine word. -/
inductive ParseIntError
  | empty
  | invalidDigit
  | posOverflow
  deriving DecidableEq, Repr

/-- The text by which an error is shown. -/
def ParseIntError.message : ParseIntError → String
  | .empty => "cannot parse integer from empty string"
  | .invalidDigit => "invalid digit found in string"
  | .posOverflow => "number too large to fit in target type"

/-- The digits of a numeral, read onto the value so far. The first character that is no digit or
that takes the value to the bound ends the reading. -/
def readDigits (bound : ℕ) : List Char → ℕ → Except ParseIntError ℕ
  | [], value => .ok value
  | character :: rest, value =>
    if character.isDigit then
      let next := 10 * value + (character.toNat - '0'.toNat)
      if next < bound then readDigits bound rest next else .error .posOverflow
    else .error .invalidDigit

/-- An unsigned decimal numeral below `bound`, with an optional plus sign that is not alone. -/
def parseInt (bound : ℕ) : List Char → Except ParseIntError ℕ
  | [] => .error .empty
  | ['+'] => .error .invalidDigit
  | '+' :: digits => readDigits bound digits 0
  | digits => readDigits bound digits 0

theorem le_ofDigitChars (digits : List Char) (value : ℕ) :
    value ≤ Nat.ofDigitChars 10 digits value := by
  induction digits generalizing value with
  | nil => simp
  | cons character rest ih =>
    rw [Nat.ofDigitChars_cons]
    have hrest := ih (10 * value + (character.toNat - '0'.toNat))
    omega

/-- Reading succeeds on digits alone whose number stays below the bound. Assumes: the value so far
is below it. -/
theorem readDigits_eq_ok_iff {bound value : ℕ} (hvalue : value < bound) (digits : List Char)
    (result : ℕ) : readDigits bound digits value = .ok result ↔
      digits.all Char.isDigit = true ∧ Nat.ofDigitChars 10 digits value = result ∧
        result < bound := by
  induction digits generalizing value with
  | nil =>
    simp only [readDigits, Except.ok.injEq, List.all_nil, Nat.ofDigitChars_nil, true_and]
    constructor
    · rintro rfl
      exact ⟨rfl, hvalue⟩
    · exact fun h ↦ h.1
  | cons character rest ih =>
    rw [readDigits, List.all_cons, Bool.and_eq_true, Nat.ofDigitChars_cons]
    by_cases hdigit : character.isDigit = true
    · rw [if_pos hdigit]
      by_cases hnext : 10 * value + (character.toNat - '0'.toNat) < bound
      · rw [if_pos hnext, ih hnext]
        simp only [hdigit, true_and]
      · rw [if_neg hnext]
        have hle := le_ofDigitChars rest (10 * value + (character.toNat - '0'.toNat))
        refine ⟨nofun, ?_⟩
        rintro ⟨-, rfl, hresult⟩
        omega
    · rw [if_neg hdigit]
      exact ⟨nofun, fun h ↦ absurd h.1.1 hdigit⟩

/-- The reading that tells its errors and the one that does not accept the same numerals. -/
theorem parseInt_eq_ok_iff {bound : ℕ} (hbound : 0 < bound) (text : List Char) (value : ℕ) :
    parseInt bound text = .ok value ↔ parseUnsigned bound text = some value := by
  have hdigits {digits : List Char} (hne : digits ≠ []) :
      readDigits bound digits 0 = .ok value ↔
        (parseDigits digits).filter (· < bound) = some value := by
    rw [readDigits_eq_ok_iff hbound, Option.filter_eq_some_iff, parseDigits]
    simp only [ne_eq, hne, not_false_eq_true, true_and, Option.ite_none_right_eq_some,
      Option.some.injEq, decide_eq_true_eq]
    tauto
  unfold parseInt parseUnsigned
  split
  · exact ⟨nofun, nofun⟩
  · exact ⟨nofun, nofun⟩
  · next hne => exact hdigits hne
  · next hne _ hplain =>
    dsimp only
    split
    · exact absurd rfl (hplain _)
    · exact hdigits hne

end Text
