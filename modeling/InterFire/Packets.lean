import InterFire.Pending
import InterFire.Library.Datagram

/-!
# Reading the destination of a packet

`crates/interfire-daemon/src/packet.rs` indexes a payload of unknown length. `tcpDestinationChecked`
is the function with every index and every slice checked as the language checks it, one that lies
beyond the payload being an error, and `tcpDestinationChecked_eq` says that no check fails and that
the result is `tcpDestination`.

What is read is stated against the layout of `Datagram`. `tcpDestination_bytes` is the reading of
a packet, whatever its options and whatever follows its ports, and
`exists_datagram_of_tcpDestination` says that a payload with a destination is such a packet.
-/

set_option autoImplicit false
set_option relaxedAutoImplicit false

namespace InterFire

open ByteOrder

/-! ### The reader with its bounds checks -/

/-- An index or a slice that lies beyond the bytes there are. -/
inductive OutOfRange
  | index (index length : ℕ)
  | slice (start stop length : ℕ)
  deriving DecidableEq, Repr

/-- `payload[index]`. -/
def byteAt (payload : List UInt8) (index : ℕ) : Except OutOfRange UInt8 :=
  if h : index < payload.length then .ok payload[index] else .error (.index index payload.length)

/-- `payload[start..stop]`. -/
def sliceOf (payload : List UInt8) (start stop : ℕ) : Except OutOfRange (List UInt8) :=
  if start ≤ stop ∧ stop ≤ payload.length then .ok ((payload.drop start).take (stop - start))
  else .error (.slice start stop payload.length)

/-- The big-endian word of a slice of four bytes; a slice of another length is no array of four. -/
def u32FromBeBytes : List UInt8 → Option UInt32
  | [first, second, third, fourth] => some (Octets.fromBeBytes ⟨first, second, third, fourth⟩)
  | _ => none

/-- The big-endian word of a slice of two bytes. -/
def u16FromBeBytes : List UInt8 → Option UInt16
  | [high, low] => some (UInt16.ofNat (ofBigEndian [high, low]))
  | _ => none

/-- `tcp_destination`, with the checks of its indices and slices. -/
def tcpDestinationChecked (payload : List UInt8) : Except OutOfRange (Option DestKey) := do
  if payload.length < 20 then return none
  let versionIhl ← byteAt payload 0
  if versionIhl >>> 4 ≠ 4 then return none
  let ihl := (versionIhl &&& 0x0f).toNat * 4
  if ihl < 20 ∨ payload.length < ihl + 4 then return none
  if (← byteAt payload 9) ≠ ipprotoTcp then return none
  let some ipv4 := u32FromBeBytes (← sliceOf payload 16 20) | return none
  let some port := u16FromBeBytes (← sliceOf payload (ihl + 2) (ihl + 4)) | return none
  return some ⟨ipv4, port⟩

theorem byteAt_of_lt {payload : List UInt8} {index : ℕ} (hindex : index < payload.length) :
    byteAt payload index = .ok payload[index] := dif_pos hindex

theorem sliceOf_of_le {payload : List UInt8} {start stop : ℕ} (hstart : start ≤ stop)
    (hstop : stop ≤ payload.length) :
    sliceOf payload start stop = .ok ((payload.drop start).take (stop - start)) :=
  if_pos ⟨hstart, hstop⟩

/-- The four bytes from a place on. -/
theorem take_four_drop {payload : List UInt8} {start : ℕ} (hstart : start + 4 ≤ payload.length) :
    (payload.drop start).take 4 =
      [payload[start], payload[start + 1], payload[start + 2], payload[start + 3]] := by
  rw [List.drop_eq_getElem_cons (by omega), List.drop_eq_getElem_cons (by omega),
    List.drop_eq_getElem_cons (by omega), List.drop_eq_getElem_cons (by omega)]
  rfl

/-- The two bytes from a place on. -/
theorem take_two_drop {payload : List UInt8} {start : ℕ} (hstart : start + 2 ≤ payload.length) :
    (payload.drop start).take 2 = [payload[start], payload[start + 1]] := by
  rw [List.drop_eq_getElem_cons (by omega), List.drop_eq_getElem_cons (by omega)]
  rfl

/-- No index and no slice of the reader lies beyond the payload. -/
theorem tcpDestinationChecked_eq (payload : List UInt8) :
    tcpDestinationChecked payload = .ok (tcpDestination payload) := by
  unfold tcpDestinationChecked tcpDestination
  by_cases hshort : payload.length < 20
  · rw [if_pos hshort, dif_pos hshort]
    rfl
  rw [if_neg hshort, dif_neg hshort, byteAt_of_lt (show 0 < payload.length by omega)]
  dsimp only [bind, Except.bind, pure, Except.pure]
  by_cases hversion : payload[0] >>> 4 ≠ 4
  · rw [if_pos hversion, if_pos hversion]
  rw [if_neg hversion, if_neg hversion]
  by_cases hihl : (payload[0] &&& 0x0f).toNat * 4 < 20 ∨
      payload.length < (payload[0] &&& 0x0f).toNat * 4 + 4
  · rw [if_pos hihl, dif_pos hihl]
  rw [if_neg hihl, dif_neg hihl, byteAt_of_lt (show 9 < payload.length by omega)]
  dsimp only
  by_cases hprotocol : payload[9] ≠ ipprotoTcp
  · rw [if_pos hprotocol, if_pos hprotocol]
  -- both slices have the length of the array they are converted to
  rw [if_neg hprotocol, if_neg hprotocol, sliceOf_of_le (by omega) (by omega),
    sliceOf_of_le (by omega) (by omega)]
  dsimp only
  rw [show 20 - 16 = 4 by rfl, take_four_drop (by omega), Nat.add_sub_add_left,
    show 4 - 2 = 2 by rfl, take_two_drop (by omega)]
  rfl

/-! ### What is read -/

/-- A payload with a version-four head, at least five words of header and four bytes after it, and
the protocol of TCP has the destination that its bytes spell. -/
theorem tcpDestination_of_fields {payload : List UInt8} {first : UInt8} {octets : Octets}
    {port : UInt16} (hhead : payload[0]? = some first) (hversion : first >>> 4 = 4)
    (hwords : 5 ≤ (first &&& 0x0f).toNat)
    (hlong : 4 * (first &&& 0x0f).toNat + 4 ≤ payload.length)
    (hprotocol : payload[9]? = some ipprotoTcp)
    (haddress : (payload.drop 16).take 4 = octets.toList)
    (hport : (payload.drop (4 * (first &&& 0x0f).toNat + 2)).take 2 = portBytes port) :
    tcpDestination payload = some ⟨octets.fromBeBytes, port⟩ := by
  obtain ⟨hfirst, rfl⟩ := List.getElem?_eq_some_iff.mp hhead
  obtain ⟨hnine, hprotocol⟩ := List.getElem?_eq_some_iff.mp hprotocol
  rw [Nat.mul_comm] at hlong hport
  have hshort : ¬payload.length < 20 := by omega
  have hihl : ¬((payload[0] &&& 0x0f).toNat * 4 < 20 ∨
      payload.length < (payload[0] &&& 0x0f).toNat * 4 + 4) := by omega
  have hoctets : (⟨payload[16], payload[17], payload[18], payload[19]⟩ : Octets) = octets := by
    rw [take_four_drop (by omega)] at haddress
    exact Octets.toList_injective haddress
  have hbytes : UInt16.ofNat (ofBigEndian [payload[(payload[0] &&& 0x0f).toNat * 4 + 2],
      payload[(payload[0] &&& 0x0f).toNat * 4 + 3]]) = port := by
    rw [take_two_drop (by omega)] at hport
    rw [hport, ofBigEndian_portBytes, UInt16.ofNat_toNat]
  unfold tcpDestination
  rw [dif_neg hshort, if_neg (not_not_intro hversion), dif_neg hihl,
    if_neg (not_not_intro hprotocol), hoctets, hbytes]

/-- A payload that has a destination passes every check. -/
theorem fields_of_tcpDestination {payload : List UInt8} {key : DestKey}
    (hkey : tcpDestination payload = some key) :
    ∃ first : UInt8, payload[0]? = some first ∧ first >>> 4 = 4 ∧
      5 ≤ (first &&& 0x0f).toNat ∧ 4 * (first &&& 0x0f).toNat + 4 ≤ payload.length ∧
      payload[9]? = some ipprotoTcp := by
  unfold tcpDestination at hkey
  by_cases hshort : payload.length < 20
  · rw [dif_pos hshort] at hkey
    cases hkey
  rw [dif_neg hshort] at hkey
  by_cases hversion : payload[0] >>> 4 ≠ 4
  · rw [if_pos hversion] at hkey
    cases hkey
  rw [if_neg hversion] at hkey
  by_cases hihl : (payload[0] &&& 0x0f).toNat * 4 < 20 ∨
      payload.length < (payload[0] &&& 0x0f).toNat * 4 + 4
  · rw [dif_pos hihl] at hkey
    cases hkey
  rw [dif_neg hihl] at hkey
  by_cases hprotocol : payload[9] ≠ ipprotoTcp
  · rw [if_pos hprotocol] at hkey
    cases hkey
  refine ⟨payload[0], List.getElem?_eq_getElem (by omega), not_ne_iff.mp hversion, by omega,
    by omega, ?_⟩
  rw [List.getElem?_eq_getElem (by omega), not_ne_iff.mp hprotocol]

/-- The destination of a packet is its destination address and its destination port, whatever its
options and whatever follows the ports. Assumes: the packet carries TCP. -/
theorem tcpDestination_bytes {datagram : Datagram}
    (hprotocol : datagram.header.protocol = ipprotoTcp) :
    tcpDestination datagram.bytes =
      some ⟨datagram.header.destination.fromBeBytes, datagram.segment.destinationPort⟩ := by
  have hfive := datagram.header.five_le_words
  have hfifteen := datagram.header.words_le_fifteen
  have hhead : (UInt8.ofNat (4 * 16 + datagram.header.words)).toNat =
      4 * 16 + datagram.header.words := by
    rw [UInt8.toNat_ofNat']
    omega
  have hversion : UInt8.ofNat (4 * 16 + datagram.header.words) >>> 4 = 4 := by
    rw [← UInt8.toNat_inj, toNat_high_nibble, hhead]
    show (4 * 16 + datagram.header.words) / 16 = 4
    omega
  have hwords : (UInt8.ofNat (4 * 16 + datagram.header.words) &&& 0x0f).toNat =
      datagram.header.words := by
    rw [toNat_low_nibble, hhead]
    omega
  apply tcpDestination_of_fields datagram.head_bytes hversion
  · rwa [hwords]
  · rw [hwords, Datagram.length_bytes]
    omega
  · rw [Datagram.protocol_bytes, hprotocol]
  · exact datagram.destination_bytes
  · rw [hwords]
    exact datagram.destinationPort_bytes

/-- A payload with a destination is a packet that carries TCP. -/
theorem exists_datagram_of_tcpDestination {payload : List UInt8} {key : DestKey}
    (hkey : tcpDestination payload = some key) :
    ∃ datagram : Datagram, datagram.header.protocol = ipprotoTcp ∧ datagram.bytes = payload := by
  obtain ⟨first, hhead, hversion, hwords, hlong, hprotocol⟩ := fields_of_tcpDestination hkey
  obtain ⟨datagram, rfl⟩ := Datagram.exists_bytes_eq hhead hversion hwords hlong
  refine ⟨datagram, ?_, rfl⟩
  rw [Datagram.protocol_bytes] at hprotocol
  exact Option.some.inj hprotocol

/-- The payloads with a destination are the packets that carry TCP, and the destination is theirs. -/
theorem tcpDestination_eq_some_iff (payload : List UInt8) (key : DestKey) :
    tcpDestination payload = some key ↔ ∃ datagram : Datagram,
      datagram.header.protocol = ipprotoTcp ∧ datagram.bytes = payload ∧
        key = ⟨datagram.header.destination.fromBeBytes, datagram.segment.destinationPort⟩ := by
  constructor
  · intro hkey
    obtain ⟨datagram, hprotocol, rfl⟩ := exists_datagram_of_tcpDestination hkey
    rw [tcpDestination_bytes hprotocol] at hkey
    exact ⟨datagram, hprotocol, rfl, (Option.some.inj hkey).symm⟩
  · rintro ⟨datagram, hprotocol, rfl, rfl⟩
    exact tcpDestination_bytes hprotocol

/-- The payloads without a destination are those that fail a check. -/
theorem tcpDestination_eq_none_iff (payload : List UInt8) :
    tcpDestination payload = none ↔ payload.length < 20 ∨ payload.headD 0 >>> 4 ≠ 4 ∨
      (payload.headD 0 &&& 0x0f).toNat < 5 ∨
      payload.length < 4 * (payload.headD 0 &&& 0x0f).toNat + 4 ∨
      payload[9]? ≠ some ipprotoTcp := by
  constructor
  · intro hnone
    by_contra hchecks
    push Not at hchecks
    obtain ⟨hlong, hversion, hwords, hheader, hprotocol⟩ := hchecks
    obtain ⟨first, tail, rfl⟩ : ∃ first tail, payload = first :: tail :=
      List.exists_cons_of_length_pos (by omega)
    obtain ⟨datagram, hbytes⟩ := Datagram.exists_bytes_eq rfl hversion hwords hheader
    rw [← hbytes, Datagram.protocol_bytes] at hprotocol
    rw [← hbytes, tcpDestination_bytes (Option.some.inj hprotocol)] at hnone
    cases hnone
  · intro hchecks
    by_contra hsome
    obtain ⟨key, hkey⟩ := Option.ne_none_iff_exists'.mp hsome
    obtain ⟨first, hhead, hversion, hwords, hheader, hprotocol⟩ := fields_of_tcpDestination hkey
    have hfirst : payload.headD 0 = first := by
      rw [List.headD_eq_head?_getD, List.head?_eq_getElem?, hhead, Option.getD_some]
    rw [hfirst] at hchecks
    rcases hchecks with hshort | hother | hbelow | hbeyond | hforeign
    · omega
    · exact hother hversion
    · omega
    · omega
    · exact hforeign hprotocol

/-- For every byte string no index and no slice of the reader is out of range, its result is the
destination address and port of the packet that the string is, and there is none exactly for the
strings that are too short, of another version or protocol, or whose header length is below five
words or beyond the packet. -/
theorem tcpDestination_reads_destination (payload : List UInt8) :
    tcpDestinationChecked payload = .ok (tcpDestination payload) ∧
      (∀ key, tcpDestination payload = some key ↔ ∃ datagram : Datagram,
        datagram.header.protocol = ipprotoTcp ∧ datagram.bytes = payload ∧
          key = ⟨datagram.header.destination.fromBeBytes, datagram.segment.destinationPort⟩) ∧
      (tcpDestination payload = none ↔ payload.length < 20 ∨ payload.headD 0 >>> 4 ≠ 4 ∨
        (payload.headD 0 &&& 0x0f).toNat < 5 ∨
        payload.length < 4 * (payload.headD 0 &&& 0x0f).toNat + 4 ∨
        payload[9]? ≠ some ipprotoTcp) :=
  ⟨tcpDestinationChecked_eq payload, tcpDestination_eq_some_iff payload,
    tcpDestination_eq_none_iff payload⟩

end InterFire
