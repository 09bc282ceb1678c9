import Mathlib.Data.List.Basic
import InterFire.Library.Text

/-!
# Texts as bytes

The UTF-8 bytes of a text, and the text of bytes that are UTF-8. `decode_eq_some_iff` says that bytes
are read as a text exactly when they are its bytes. An ASCII byte is the byte of its own character and
of no other one (`mem_encodeChar_iff`), so it stands in the bytes of a text exactly where the
character stands in the text.
-/

set_option autoImplicit false
set_option relaxedAutoImplicit false

namespace Utf8

/-- The bytes of a text. -/
def encode (text : List Char) : List UInt8 := text.flatMap String.utf8EncodeChar

/-- The text of bytes, if they are UTF-8. -/
def decode (bytes : List UInt8) : Option (List Char) :=
  bytes.toByteArray.utf8Decode?.map Array.toList

@[simp] theorem encode_nil : encode [] = [] := rfl

@[simp] theorem encode_cons (character : Char) (text : List Char) :
    encode (character :: text) = String.utf8EncodeChar character ++ encode text := rfl

@[simp] theorem encode_append (first second : List Char) :
    encode (first ++ second) = encode first ++ encode second :=
  List.flatMap_append

theorem toByteArray_encode (text : List Char) : (encode text).toByteArray = text.utf8Encode := rfl

@[simp] theorem decode_encode (text : List Char) : decode (encode text) = some text := by
  rw [decode, toByteArray_encode, List.utf8Decode?_utf8Encode, Option.map_some]

/-- Bytes are read as a text exactly when they are its bytes. -/
theorem decode_eq_some_iff (bytes : List UInt8) (text : List Char) :
    decode bytes = some text ↔ bytes = encode text := by
  constructor
  · intro hdecode
    obtain ⟨characters, hcharacters, rfl⟩ := Option.map_eq_some_iff.mp hdecode
    have hsome : bytes.toByteArray.utf8Decode?.isSome := by rw [hcharacters]; rfl
    have hencode : (bytes.toByteArray.utf8Decode?.get hsome).toList.utf8Encode =
        bytes.toByteArray := ByteArray.utf8Encode_get_utf8Decode?
    have hget : bytes.toByteArray.utf8Decode?.get hsome = characters := by
      rw [← Option.some_inj, Option.some_get, hcharacters]
    rw [hget, ← toByteArray_encode] at hencode
    have hdata := congrArg (fun array : ByteArray ↦ array.data.toList) hencode
    simpa using hdata.symm
  · rintro rfl
    exact decode_encode text

/-- The length in bytes. -/
theorem length_encode (text : List Char) : (encode text).length = Text.byteLength text := by
  induction text with
  | nil => rfl
  | cons character rest ih =>
    rw [encode_cons, List.length_append, String.length_utf8EncodeChar, ih]
    rfl

/-- An end of the bytes of an ASCII text is the bytes of an end of the text. -/
theorem exists_of_suffix_encode {text : List Char}
    (hascii : ∀ character ∈ text, character.utf8Size = 1) {part : List UInt8}
    (hpart : part <:+ encode text) : ∃ tail, tail <:+ text ∧ part = encode tail := by
  induction text with
  | nil => exact ⟨[], List.nil_suffix, List.suffix_nil.mp hpart⟩
  | cons character rest ih =>
    rw [encode_cons, String.utf8EncodeChar_eq_singleton (hascii character List.mem_cons_self),
      List.singleton_append, List.suffix_cons_iff] at hpart
    rcases hpart with hwhole | hrest
    · refine ⟨character :: rest, List.suffix_refl _, ?_⟩
      rw [hwhole, encode_cons,
        String.utf8EncodeChar_eq_singleton (hascii character List.mem_cons_self),
        List.singleton_append]
    · obtain ⟨tail, htail, hbytes⟩ := ih (fun other hother ↦
        hascii other (List.mem_cons_of_mem character hother)) hrest
      exact ⟨tail, htail.trans (List.suffix_cons character rest), hbytes⟩

/-- The bytes of a character beyond ASCII are not ASCII. -/
theorem le_of_mem_encodeChar {character : Char} (hsize : character.utf8Size ≠ 1) {byte : UInt8}
    (hmem : byte ∈ String.utf8EncodeChar character) : 128 ≤ byte.toNat := by
  have hor : ∀ (low high : UInt8), 128 ≤ high.toNat → 128 ≤ (low ||| high).toNat := by
    intro low high hhigh
    rw [UInt8.toNat_or]
    exact hhigh.trans Nat.right_le_or
  rcases character.utf8Size_eq with hone | htwo | hthree | hfour
  · exact absurd hone hsize
  · rw [String.utf8EncodeChar_eq_cons_cons htwo] at hmem
    simp only [List.mem_cons, List.not_mem_nil, or_false] at hmem
    rcases hmem with rfl | rfl <;> exact hor _ _ (by decide)
  · rw [String.utf8EncodeChar_eq_cons_cons_cons hthree] at hmem
    simp only [List.mem_cons, List.not_mem_nil, or_false] at hmem
    rcases hmem with rfl | rfl | rfl <;> exact hor _ _ (by decide)
  · rw [String.utf8EncodeChar_eq_cons_cons_cons_cons hfour] at hmem
    simp only [List.mem_cons, List.not_mem_nil, or_false] at hmem
    rcases hmem with rfl | rfl | rfl | rfl <;> exact hor _ _ (by decide)

/-- An ASCII byte is the byte of its character. -/
theorem toNat_eq_of_mem_encodeChar {character : Char} {byte : UInt8} (hbyte : byte.toNat < 128)
    (hmem : byte ∈ String.utf8EncodeChar character) : character.toNat = byte.toNat := by
  by_cases hsize : character.utf8Size = 1
  · have hsmall : character.val.toNat ≤ 127 := by
      have hval := Char.utf8Size_eq_one_iff.mp hsize
      exact UInt32.le_iff_toNat_le.mp hval
    rw [String.utf8EncodeChar_eq_singleton hsize, List.mem_singleton] at hmem
    rw [hmem, UInt32.toNat_toUInt8, Nat.mod_eq_of_lt (by omega)]
    rfl
  · exact absurd (le_of_mem_encodeChar hsize hmem) (not_le.mpr hbyte)

/-- An ASCII byte of a text is the byte of one of its characters. -/
theorem exists_of_mem_encode {text : List Char} {byte : UInt8} (hbyte : byte.toNat < 128)
    (hmem : byte ∈ encode text) : ∃ character ∈ text, character.toNat = byte.toNat := by
  obtain ⟨character, hcharacter, hbytes⟩ := List.mem_flatMap.mp hmem
  exact ⟨character, hcharacter, toNat_eq_of_mem_encodeChar hbyte hbytes⟩

/-- A text whose bytes begin with an ASCII byte begins with its character. Assumes: they do. -/
theorem exists_cons_of_encode {text : List Char} {byte : UInt8} {bytes : List UInt8}
    (hbyte : byte.toNat < 128) (hencode : encode text = byte :: bytes) :
    ∃ character rest, text = character :: rest ∧ character.toNat = byte.toNat := by
  cases text with
  | nil => cases hencode
  | cons character rest =>
    refine ⟨character, rest, rfl, toNat_eq_of_mem_encodeChar hbyte ?_⟩
    rw [encode_cons] at hencode
    have hne : String.utf8EncodeChar character ≠ [] := by
      rw [ne_eq, ← List.length_eq_zero_iff, String.length_utf8EncodeChar]
      exact (Char.utf8Size_pos character).ne'
    obtain ⟨first, others, hfirst⟩ := List.exists_cons_of_ne_nil hne
    rw [hfirst, List.cons_append] at hencode
    obtain ⟨rfl, _⟩ := List.cons.inj hencode
    rw [hfirst]
    exact List.mem_cons_self

/-- A text whose bytes end with an ASCII byte ends with its character. Assumes: they do. -/
theorem exists_concat_of_encode {text : List Char} {byte : UInt8} {bytes : List UInt8}
    (hbyte : byte.toNat < 128) (hencode : encode text = bytes ++ [byte]) :
    ∃ before character, text = before ++ [character] ∧ character.toNat = byte.toNat ∧
      encode before = bytes := by
  rcases List.eq_nil_or_concat text with rfl | ⟨before, character, rfl⟩
  · simp at hencode
  · rw [List.concat_eq_append] at hencode ⊢
    refine ⟨before, character, rfl, ?_⟩
    have hchar : encode [character] = String.utf8EncodeChar character := by simp
    rw [encode_append, hchar] at hencode
    have hne : String.utf8EncodeChar character ≠ [] := by
      rw [ne_eq, ← List.length_eq_zero_iff, String.length_utf8EncodeChar]
      exact (Char.utf8Size_pos character).ne'
    obtain ⟨init, last, hlast⟩ := (List.eq_nil_or_concat _).resolve_left hne
    rw [List.concat_eq_append] at hlast
    rw [hlast, ← List.append_assoc] at hencode
    obtain ⟨hinit, hsame⟩ := List.append_inj' hencode rfl
    obtain rfl := (List.cons.inj hsame).1
    have hmem : last ∈ String.utf8EncodeChar character := by simp [hlast]
    refine ⟨toNat_eq_of_mem_encodeChar hbyte hmem, ?_⟩
    have hsize : character.utf8Size = 1 := by
      by_contra hsize
      exact absurd (le_of_mem_encodeChar hsize hmem) (not_le.mpr hbyte)
    have hlength := congrArg List.length hlast
    rw [String.length_utf8EncodeChar, hsize, List.length_append, List.length_singleton] at hlength
    obtain rfl := List.length_eq_zero_iff.mp (by omega : init.length = 0)
    rw [← hinit, List.append_nil]

/-- The bytes of ASCII. -/
def Ascii (bytes : List UInt8) : Prop := ∀ byte ∈ bytes, byte.toNat < 128

/-- ASCII bytes are a text. -/
theorem exists_decode_of_ascii {bytes : List UInt8} (hascii : Ascii bytes) :
    ∃ text, decode bytes = some text := by
  refine ⟨bytes.map fun byte ↦ Char.ofNat byte.toNat, (decode_eq_some_iff _ _).mpr ?_⟩
  induction bytes with
  | nil => rfl
  | cons byte rest ih =>
    have hbyte := hascii byte List.mem_cons_self
    have hvalid : byte.toNat.isValidChar := Or.inl (by omega)
    have hcode : (Char.ofNat byte.toNat).toNat = byte.toNat := by
      rw [Char.ofNat, dif_pos hvalid]
      rfl
    have hsize : (Char.ofNat byte.toNat).utf8Size = 1 := by
      rw [Char.utf8Size_eq_one_iff]
      refine UInt32.le_iff_toNat_le.mpr ?_
      show (Char.ofNat byte.toNat).toNat ≤ 127
      omega
    rw [List.map_cons, encode_cons, ← ih fun other hother ↦ hascii other (List.mem_cons_of_mem byte hother),
      String.utf8EncodeChar_eq_singleton hsize, List.singleton_append]
    refine congrArg (· :: rest) (UInt8.toNat_inj.mp ?_)
    rw [UInt32.toNat_toUInt8]
    show _ = (Char.ofNat byte.toNat).toNat % 2 ^ 8
    omega

/-- A text is ASCII exactly when its bytes are. -/
theorem ascii_encode_iff (text : List Char) :
    Ascii (encode text) ↔ ∀ character ∈ text, character.toNat < 128 := by
  constructor
  · intro hascii character hmem
    have hsize : character.utf8Size = 1 := by
      by_contra hsize
      have hne : String.utf8EncodeChar character ≠ [] := by
        rw [ne_eq, ← List.length_eq_zero_iff, String.length_utf8EncodeChar]
        exact (Char.utf8Size_pos character).ne'
      obtain ⟨byte, rest, hbyte⟩ := List.exists_cons_of_ne_nil hne
      have hin : byte ∈ String.utf8EncodeChar character := hbyte ▸ List.mem_cons_self
      exact absurd (le_of_mem_encodeChar hsize hin)
        (not_le.mpr (hascii byte (List.mem_flatMap.mpr ⟨character, hmem, hin⟩)))
    exact Nat.lt_succ_of_le (UInt32.le_iff_toNat_le.mp (Char.utf8Size_eq_one_iff.mp hsize))
  · intro hascii byte hmem
    obtain ⟨character, hcharacter, hbyte⟩ := List.mem_flatMap.mp hmem
    have hsmall := hascii character hcharacter
    have hsize : character.utf8Size = 1 := by
      rw [Char.utf8Size_eq_one_iff]
      exact UInt32.le_iff_toNat_le.mpr (Nat.lt_succ_iff.mp hsmall)
    rw [String.utf8EncodeChar_eq_singleton hsize, List.mem_singleton] at hbyte
    rw [hbyte, UInt32.toNat_toUInt8]
    exact (Nat.mod_le _ _).trans_lt hsmall

end Utf8
