import InterFire.Library.Ipv4

/-!
# IPv4 packets that carry TCP

The byte layout of an IPv4 header of five to fifteen words and of the ports at the start of a TCP
segment. `Datagram.bytes` writes a packet out. `Datagram.head_bytes`, `Datagram.protocol_bytes`,
`Datagram.destination_bytes` and `Datagram.destinationPort_bytes` say where a reader finds the
fields, and `Datagram.exists_bytes_eq` that a byte string with a version-four head, a header length
of at least five words and four bytes after the header is such a packet.
-/

set_option autoImplicit false
set_option relaxedAutoImplicit false

namespace InterFire

open ByteOrder

/-! ### Slices -/

/-- A list of four bytes is an address. -/
theorem Octets.exists_toList_eq {bytes : List UInt8} (hlength : bytes.length = 4) :
    ∃ octets : Octets, octets.toList = bytes := by
  obtain ⟨first, second, third, fourth, rfl⟩ := List.length_eq_four.mp hlength
  exact ⟨⟨first, second, third, fourth⟩, rfl⟩

@[simp] theorem Octets.length_toList (octets : Octets) : octets.toList.length = 4 := rfl

/-- The two bytes of a port, most significant first. -/
def portBytes (port : UInt16) : List UInt8 :=
  [UInt8.ofNat (port.toNat / 256), UInt8.ofNat port.toNat]

@[simp] theorem length_portBytes (port : UInt16) : (portBytes port).length = 2 := rfl

/-- The number of the two bytes of a port is the port. -/
theorem ofBigEndian_portBytes (port : UInt16) : ofBigEndian (portBytes port) = port.toNat := by
  have hport : port.toNat < 65536 := port.toNat_lt
  simp only [ofBigEndian, portBytes, List.reverse_cons, List.reverse_nil, List.nil_append,
    List.cons_append, ofLittleEndian_cons, ofLittleEndian_nil, UInt8.toNat_ofNat']
  omega

/-- A list of two bytes is a port. -/
theorem exists_portBytes_eq {bytes : List UInt8} (hlength : bytes.length = 2) :
    ∃ port : UInt16, portBytes port = bytes := by
  obtain ⟨high, low, rfl⟩ := List.length_eq_two.mp hlength
  have hhigh : high.toNat < 256 := high.toNat_lt
  have hlow : low.toNat < 256 := low.toNat_lt
  refine ⟨UInt16.ofNat (256 * high.toNat + low.toNat), ?_⟩
  simp only [portBytes, UInt16.toNat_ofNat', List.cons.injEq, ← UInt8.toNat_inj,
    UInt8.toNat_ofNat', and_true]
  omega

/-! ### The layout -/

/-- An IPv4 header. `words` is its length in words of four bytes; `leading` are the eight bytes from
the type of service to the time to live, and `checksum` the two bytes after the protocol. -/
structure Ipv4Header where
  words : ℕ
  five_le_words : 5 ≤ words
  words_le_fifteen : words ≤ 15
  leading : List UInt8
  length_leading : leading.length = 8
  protocol : UInt8
  checksum : List UInt8
  length_checksum : checksum.length = 2
  source : Octets
  destination : Octets
  options : List UInt8
  length_options : options.length = 4 * (words - 5)

/-- The bytes of a header of version four. -/
def Ipv4Header.bytes (header : Ipv4Header) : List UInt8 :=
  UInt8.ofNat (4 * 16 + header.words) :: (header.leading ++ header.protocol ::
    (header.checksum ++ (header.source.toList ++ (header.destination.toList ++ header.options))))

/-- A TCP segment: its two ports and the bytes after them. -/
structure TcpSegment where
  sourcePort : UInt16
  destinationPort : UInt16
  rest : List UInt8

/-- The bytes of a segment. -/
def TcpSegment.bytes (segment : TcpSegment) : List UInt8 :=
  portBytes segment.sourcePort ++ (portBytes segment.destinationPort ++ segment.rest)

/-- An IPv4 header followed by a segment. -/
structure Datagram where
  header : Ipv4Header
  segment : TcpSegment

namespace Datagram

/-- The bytes of a packet. -/
def bytes (datagram : Datagram) : List UInt8 := datagram.header.bytes ++ datagram.segment.bytes

variable (datagram : Datagram)

/-! ### Where the fields are -/

theorem length_header : datagram.header.bytes.length = 4 * datagram.header.words := by
  have hwords := datagram.header.five_le_words
  simp only [Ipv4Header.bytes, List.length_cons, List.length_append, Octets.length_toList,
    datagram.header.length_leading, datagram.header.length_checksum,
    datagram.header.length_options]
  omega

/-- A packet is as long as its header, four bytes of ports and the rest. -/
theorem length_bytes :
    datagram.bytes.length = 4 * datagram.header.words + 4 + datagram.segment.rest.length := by
  rw [bytes, List.length_append, length_header, TcpSegment.bytes, List.length_append,
    List.length_append, length_portBytes, length_portBytes]
  omega

/-- The first byte is the version and the header length. -/
theorem head_bytes :
    datagram.bytes[0]? = some (UInt8.ofNat (4 * 16 + datagram.header.words)) := rfl

/-- The bytes from `before.length` on of a string that starts with `before`. -/
theorem slice_append {before field after : List UInt8} {start length : ℕ}
    (hstart : before.length = start) (hlength : field.length = length) :
    ((before ++ (field ++ after)).drop start).take length = field := by
  rw [← hstart, List.drop_left, ← hlength, List.take_left]

/-- Byte nine is the protocol. -/
theorem protocol_bytes : datagram.bytes[9]? = some datagram.header.protocol := by
  have hleading := datagram.header.length_leading
  simp only [bytes, Ipv4Header.bytes, List.cons_append, List.append_assoc, List.getElem?_cons_succ]
  rw [List.getElem?_append_right (by omega), hleading]
  rfl

/-- Bytes sixteen to nineteen are the destination address. -/
theorem destination_bytes :
    (datagram.bytes.drop 16).take 4 = datagram.header.destination.toList := by
  have hsplit : datagram.bytes = (UInt8.ofNat (4 * 16 + datagram.header.words) ::
      (datagram.header.leading ++ datagram.header.protocol ::
        (datagram.header.checksum ++ datagram.header.source.toList))) ++
      (datagram.header.destination.toList ++
        (datagram.header.options ++ datagram.segment.bytes)) := by
    simp only [bytes, Ipv4Header.bytes, List.cons_append, List.append_assoc]
  rw [hsplit]
  apply slice_append
  · simp only [List.length_cons, List.length_append, Octets.length_toList,
      datagram.header.length_leading, datagram.header.length_checksum]
  · exact Octets.length_toList _

/-- The bytes two and three after the header are the destination port. -/
theorem destinationPort_bytes :
    (datagram.bytes.drop (4 * datagram.header.words + 2)).take 2 =
      portBytes datagram.segment.destinationPort := by
  have hsplit : datagram.bytes = (datagram.header.bytes ++ portBytes datagram.segment.sourcePort) ++
      (portBytes datagram.segment.destinationPort ++ datagram.segment.rest) := by
    rw [bytes, TcpSegment.bytes, List.append_assoc]
  rw [hsplit]
  apply slice_append
  · rw [List.length_append, length_header, length_portBytes]
  · exact length_portBytes _

end Datagram

/-! ### Every byte string of this shape is a packet -/

/-- A byte string splits at every place within it. -/
theorem exists_slice {bytes : List UInt8} (length : ℕ) (hlength : length ≤ bytes.length) :
    ∃ field after, field.length = length ∧ after.length = bytes.length - length ∧
      bytes = field ++ after :=
  ⟨bytes.take length, bytes.drop length, List.length_take_of_le hlength, List.length_drop,
    (List.take_append_drop length bytes).symm⟩

/-- The number of the low nibble of a byte. -/
theorem toNat_low_nibble (first : UInt8) : (first &&& 0x0f).toNat = first.toNat % 16 := by
  rw [UInt8.toNat_and]
  exact Nat.and_two_pow_sub_one_eq_mod first.toNat 4

/-- The number of the high nibble of a byte. -/
theorem toNat_high_nibble (first : UInt8) : (first >>> 4).toNat = first.toNat / 16 := by
  rw [UInt8.toNat_shiftRight, Nat.shiftRight_eq_div_pow]
  rfl

/-- A head of version four is that of a header whose length is the low nibble. -/
theorem head_eq_of_version {first : UInt8} (hversion : first >>> 4 = 4) :
    UInt8.ofNat (4 * 16 + (first &&& 0x0f).toNat) = first := by
  have hhigh : first.toNat / 16 = 4 := by
    rw [← toNat_high_nibble, hversion]
    rfl
  have hfirst : first.toNat < 256 := first.toNat_lt
  rw [← UInt8.toNat_inj, UInt8.toNat_ofNat', toNat_low_nibble]
  omega

/-- A version-four head that announces at least five words, with the rest of these words, is a
header. -/
theorem Ipv4Header.exists_bytes_eq {first : UInt8} {tail : List UInt8}
    (hversion : first >>> 4 = 4) (hwords : 5 ≤ (first &&& 0x0f).toNat)
    (hlength : tail.length + 1 = 4 * (first &&& 0x0f).toNat) :
    ∃ header : Ipv4Header, header.bytes = first :: tail := by
  have hfifteen : (first &&& 0x0f).toNat ≤ 15 := by
    rw [toNat_low_nibble]
    omega
  -- the fields are cut off one after the other, each with the length of what is left
  obtain ⟨leading, afterLeading, hleading, hlong, rfl⟩ :=
    exists_slice 8 (show 8 ≤ tail.length by omega)
  rw [List.length_append] at hlength hlong
  obtain ⟨protocol, afterProtocol, rfl⟩ : ∃ protocol after, afterLeading = protocol :: after :=
    List.exists_cons_of_length_pos (by omega)
  rw [List.length_cons] at hlength
  obtain ⟨checksum, afterChecksum, hchecksum, -, rfl⟩ :=
    exists_slice 2 (show 2 ≤ afterProtocol.length by omega)
  rw [List.length_append] at hlength
  obtain ⟨sourceBytes, afterSource, hsource, -, rfl⟩ :=
    exists_slice 4 (show 4 ≤ afterChecksum.length by omega)
  rw [List.length_append] at hlength
  obtain ⟨destinationBytes, options, hdestination, -, rfl⟩ :=
    exists_slice 4 (show 4 ≤ afterSource.length by omega)
  rw [List.length_append] at hlength
  obtain ⟨source, rfl⟩ := Octets.exists_toList_eq hsource
  obtain ⟨destination, rfl⟩ := Octets.exists_toList_eq hdestination
  rw [Octets.length_toList, Octets.length_toList] at hlength
  refine ⟨⟨(first &&& 0x0f).toNat, hwords, hfifteen, leading, hleading, protocol, checksum,
    hchecksum, source, destination, options, by omega⟩, ?_⟩
  rw [Ipv4Header.bytes, head_eq_of_version hversion]

/-- Four bytes and anything after them are a segment. -/
theorem TcpSegment.exists_bytes_eq {bytes : List UInt8} (hlong : 4 ≤ bytes.length) :
    ∃ segment : TcpSegment, segment.bytes = bytes := by
  obtain ⟨sourceBytes, afterSource, hsource, hrest, rfl⟩ :=
    exists_slice 2 (show 2 ≤ bytes.length by omega)
  obtain ⟨destinationBytes, rest, hdestination, -, rfl⟩ :=
    exists_slice 2 (show 2 ≤ afterSource.length by omega)
  obtain ⟨sourcePort, rfl⟩ := exists_portBytes_eq hsource
  obtain ⟨destinationPort, rfl⟩ := exists_portBytes_eq hdestination
  exact ⟨⟨sourcePort, destinationPort, rest⟩, rfl⟩

/-- A byte string with a version-four head that announces at least five words of header, and with
four bytes after them, is a packet. -/
theorem Datagram.exists_bytes_eq {bytes : List UInt8} {first : UInt8}
    (hhead : bytes[0]? = some first) (hversion : first >>> 4 = 4)
    (hwords : 5 ≤ (first &&& 0x0f).toNat)
    (hlong : 4 * (first &&& 0x0f).toNat + 4 ≤ bytes.length) :
    ∃ datagram : Datagram, datagram.bytes = bytes := by
  obtain ⟨headerBytes, segmentBytes, hheader, hsegment, rfl⟩ :=
    exists_slice (4 * (first &&& 0x0f).toNat) (show _ ≤ bytes.length by omega)
  obtain ⟨head, tail, rfl⟩ : ∃ head tail, headerBytes = head :: tail :=
    List.exists_cons_of_length_pos (by omega)
  obtain rfl : head = first := Option.some.inj hhead
  obtain ⟨header, hbytes⟩ := Ipv4Header.exists_bytes_eq hversion hwords
    (by rw [← List.length_cons, hheader])
  obtain ⟨segment, rfl⟩ := TcpSegment.exists_bytes_eq (show 4 ≤ segmentBytes.length by omega)
  refine ⟨⟨header, segment⟩, ?_⟩
  rw [Datagram.bytes, hbytes]

end InterFire
