import Mathlib.Data.Nat.Digits.Defs
import InterFire.Library.Text

/-!
# Byte order of machine words, and IPv4 addresses in words and in text

`ofLittleEndian` and `ofBigEndian` are the numbers of a byte string, `toLittleEndian` the byte
string of a number. On a little-endian machine the native order is the little-endian one, so
`fromNeBytes` and `toNeBytes` are inverse to each other, `fromBeBytes` reads the most significant
byte first, and `fromBe` (the host value of a word that memory holds in network order) swaps the
bytes.

`Octets` are the four bytes of an IPv4 address in the order they are written. The lemmas say how
the conversions compose: `fromBe_fromNeBytes` (a network-order word becomes the big-endian number
of its bytes) and `toNeBytes_fromBeBytes` (the native bytes of that number are the octets in
reverse). `fromText_toText` is the round trip of the dotted decimal form.
-/

set_option autoImplicit false
set_option relaxedAutoImplicit false

namespace ByteOrder

/-! ### Byte strings and numbers -/

/-- The number whose bytes, least significant first, are `bytes`. -/
def ofLittleEndian (bytes : List UInt8) : ℕ := Nat.ofDigits 256 (bytes.map UInt8.toNat)

/-- The number whose bytes, most significant first, are `bytes`. -/
def ofBigEndian (bytes : List UInt8) : ℕ := ofLittleEndian bytes.reverse

/-- The lowest `width` bytes of a number, least significant first. -/
def toLittleEndian (width value : ℕ) : List UInt8 :=
  (List.range width).map fun index ↦ UInt8.ofNat (value / 256 ^ index)

@[simp] theorem ofLittleEndian_nil : ofLittleEndian [] = 0 := rfl

@[simp] theorem ofLittleEndian_cons (byte : UInt8) (rest : List UInt8) :
    ofLittleEndian (byte :: rest) = byte.toNat + 256 * ofLittleEndian rest := by
  simp [ofLittleEndian, Nat.ofDigits_cons]

theorem toLittleEndian_succ (width value : ℕ) :
    toLittleEndian (width + 1) value = UInt8.ofNat value :: toLittleEndian width (value / 256) := by
  simp only [toLittleEndian, List.range_succ_eq_map, List.map_cons, List.map_map, pow_zero,
    Nat.div_one, List.cons.injEq, true_and]
  refine List.map_congr_left fun index _ ↦ ?_
  rw [Function.comp_apply, Nat.succ_eq_add_one, pow_succ', Nat.div_div_eq_div_mul]

/-- The bytes of the number of a byte string are that byte string. -/
theorem toLittleEndian_ofLittleEndian (bytes : List UInt8) :
    toLittleEndian bytes.length (ofLittleEndian bytes) = bytes := by
  induction bytes with
  | nil => rfl
  | cons byte rest ih =>
    have hbyte : byte.toNat < 256 := byte.toNat_lt
    have hlow : UInt8.ofNat (byte.toNat + 256 * ofLittleEndian rest) = byte := by
      apply UInt8.toNat_inj.mp
      simp only [UInt8.toNat_ofNat']
      omega
    have hhigh : (byte.toNat + 256 * ofLittleEndian rest) / 256 = ofLittleEndian rest := by omega
    rw [List.length_cons, ofLittleEndian_cons, toLittleEndian_succ, hlow, hhigh, ih]

/-- The number of the bytes of a number is that number. Assumes: the number fits in the width. -/
theorem ofLittleEndian_toLittleEndian {width value : ℕ} (hlt : value < 256 ^ width) :
    ofLittleEndian (toLittleEndian width value) = value := by
  induction width generalizing value with
  | zero => rw [pow_zero] at hlt; simp [toLittleEndian]; omega
  | succ width ih =>
    have hrest : value / 256 < 256 ^ width := by
      rw [pow_succ] at hlt
      omega
    rw [toLittleEndian_succ, ofLittleEndian_cons, ih hrest]
    simp only [UInt8.toNat_ofNat']
    omega

@[simp] theorem length_toLittleEndian (width value : ℕ) :
    (toLittleEndian width value).length = width := by
  simp [toLittleEndian]

end ByteOrder

open ByteOrder

/-! ### IPv4 addresses -/

/-- The four bytes of an IPv4 address in the order they are written. -/
structure Octets where
  first : UInt8
  second : UInt8
  third : UInt8
  fourth : UInt8
  deriving DecidableEq, Repr, Inhabited

namespace Octets

/-- The bytes in written order. -/
def toList (octets : Octets) : List UInt8 :=
  [octets.first, octets.second, octets.third, octets.fourth]

/-- The bytes in the opposite order. -/
def reverse (octets : Octets) : Octets :=
  ⟨octets.fourth, octets.third, octets.second, octets.first⟩

/-- The word that memory holding the bytes in this order reads as on a little-endian machine. -/
def fromNeBytes (octets : Octets) : UInt32 := UInt32.ofNat (ofLittleEndian octets.toList)

/-- The word whose most significant byte is the first octet. -/
def fromBeBytes (octets : Octets) : UInt32 := UInt32.ofNat (ofBigEndian octets.toList)

/-- The bytes of a word in the order a little-endian machine stores them. -/
def toNeBytes (word : UInt32) : Octets :=
  ⟨UInt8.ofNat word.toNat, UInt8.ofNat (word.toNat / 256), UInt8.ofNat (word.toNat / 256 ^ 2),
    UInt8.ofNat (word.toNat / 256 ^ 3)⟩

/-- The host value of a word that was loaded from memory in network order. -/
def fromBe (word : UInt32) : UInt32 := fromBeBytes (toNeBytes word)

theorem toList_injective : Function.Injective toList := by
  intro octets other heq
  simp only [toList, List.cons.injEq] at heq
  cases octets
  cases other
  simp_all

/-- The octets that read the same in both orders. -/
theorem reverse_eq_self_iff (octets : Octets) :
    octets.reverse = octets ↔ octets.first = octets.fourth ∧ octets.second = octets.third := by
  cases octets
  simp only [reverse, Octets.mk.injEq]
  constructor
  · rintro ⟨hfirst, hsecond, _, _⟩
    exact ⟨hfirst.symm, hsecond.symm⟩
  · rintro ⟨hfirst, hsecond⟩
    exact ⟨hfirst.symm, hsecond.symm, hsecond, hfirst⟩

@[simp] theorem reverse_reverse (octets : Octets) : octets.reverse.reverse = octets := rfl

/-- Reading the octets least significant first is reading the reversed octets most significant
first. -/
theorem fromNeBytes_eq (octets : Octets) : octets.fromNeBytes = octets.reverse.fromBeBytes := rfl

theorem toNat_fromBeBytes (octets : Octets) :
    octets.fromBeBytes.toNat = octets.fourth.toNat + 256 * (octets.third.toNat +
      256 * (octets.second.toNat + 256 * octets.first.toNat)) := by
  have hfirst := octets.first.toNat_lt
  have hsecond := octets.second.toNat_lt
  have hthird := octets.third.toNat_lt
  have hfourth := octets.fourth.toNat_lt
  simp only [fromBeBytes, ofBigEndian, toList, List.reverse_cons, List.reverse_nil, List.nil_append,
    List.cons_append, ofLittleEndian_cons, ofLittleEndian_nil, UInt32.toNat_ofNat']
  omega

/-- The native bytes of the big-endian word are the octets in reverse. -/
theorem toNeBytes_fromBeBytes (octets : Octets) :
    toNeBytes octets.fromBeBytes = octets.reverse := by
  have hfirst := octets.first.toNat_lt
  have hsecond := octets.second.toNat_lt
  have hthird := octets.third.toNat_lt
  have hfourth := octets.fourth.toNat_lt
  simp only [toNeBytes, toNat_fromBeBytes, reverse, Octets.mk.injEq, ← UInt8.toNat_inj,
    UInt8.toNat_ofNat']
  omega

/-- Memory that is read natively and written back natively is unchanged. -/
theorem toNeBytes_fromNeBytes (octets : Octets) : toNeBytes octets.fromNeBytes = octets := by
  rw [fromNeBytes_eq, toNeBytes_fromBeBytes, reverse_reverse]

/-- A network-order word in memory becomes the big-endian number of its bytes. -/
theorem fromBe_fromNeBytes (octets : Octets) : fromBe octets.fromNeBytes = octets.fromBeBytes := by
  rw [fromBe, toNeBytes_fromNeBytes]

/-- Distinct addresses have distinct words. -/
theorem fromBeBytes_injective : Function.Injective fromBeBytes := by
  intro octets other heq
  have hbytes := congrArg toNeBytes heq
  rw [toNeBytes_fromBeBytes, toNeBytes_fromBeBytes] at hbytes
  simpa using congrArg reverse hbytes

/-! ### Dotted decimal text -/

/-- The characters of the dotted decimal form. -/
def toChars (octets : Octets) : List Char :=
  Nat.toDigits 10 octets.first.toNat ++ '.' :: (Nat.toDigits 10 octets.second.toNat ++ '.' ::
    (Nat.toDigits 10 octets.third.toNat ++ '.' :: Nat.toDigits 10 octets.fourth.toNat))

/-- The dotted decimal form of an address. -/
def toText (octets : Octets) : String := String.ofList octets.toChars

/-- One octet of a dotted decimal address: one to three digits without a leading zero, at most
255. -/
def parseOctet (text : List Char) : Option UInt8 :=
  if text.length ≤ 3 ∧ (text.head? = some '0' → text.length = 1) then
    ((Text.parseDigits text).filter (· < 256)).map UInt8.ofNat
  else none

/-- The address a text spells, when it is four octets separated by full stops. -/
def fromText (text : String) : Option Octets :=
  match text.toList.splitOnP (· == '.') with
  | [first, second, third, fourth] => do
    let first ← parseOctet first
    let second ← parseOctet second
    let third ← parseOctet third
    let fourth ← parseOctet fourth
    some ⟨first, second, third, fourth⟩
  | _ => none

theorem parseOctet_toDigits (octet : UInt8) :
    parseOctet (Nat.toDigits 10 octet.toNat) = some octet := by
  have hall : ∀ value < 256, parseOctet (Nat.toDigits 10 value) = some (UInt8.ofNat value) := by
    decide +kernel
  rw [hall octet.toNat octet.toNat_lt, UInt8.ofNat_toNat]

theorem toDigits_ne_dot (value : ℕ) :
    ∀ character ∈ Nat.toDigits 10 value, (character == '.') = false := by
  intro character hmem
  rw [beq_eq_false_iff_ne]
  rintro rfl
  exact Text.not_mem_toDigits (by decide) value hmem

/-- The dotted decimal form reads back as the address it was written for. -/
theorem fromText_toText (octets : Octets) : fromText octets.toText = some octets := by
  have hsplit : octets.toText.toList.splitOnP (· == '.') =
      [Nat.toDigits 10 octets.first.toNat, Nat.toDigits 10 octets.second.toNat,
        Nat.toDigits 10 octets.third.toNat, Nat.toDigits 10 octets.fourth.toNat] := by
    rw [toText, String.toList_ofList, toChars,
      List.splitOnP_append_cons_of_forall_mem (toDigits_ne_dot _) _ rfl,
      List.splitOnP_append_cons_of_forall_mem (toDigits_ne_dot _) _ rfl,
      List.splitOnP_append_cons_of_forall_mem (toDigits_ne_dot _) _ rfl,
      List.splitOnP_eq_singleton (toDigits_ne_dot _)]
  rw [fromText, hsplit]
  simp [parseOctet_toDigits]

end Octets
