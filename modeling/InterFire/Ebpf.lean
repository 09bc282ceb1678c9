import InterFire.Library.Ipv4

/-!
# The connect event and the program that emits it

`crates/interfire-ebpf` and `crates/interfire-ebpf-programs`. The kernel program reads the socket
address a process passed to `connect` and writes a `TcpConnectEvent` of 24 bytes to the ring buffer;
the daemon parses it back. The supported target is little-endian, so a word in memory is read least
significant byte first and `u32::from_be` swaps bytes.

`tryFromBytes_toBytes` is the round trip through the ring buffer, and `tryTcpConnect_sockaddr` says
which event a connect to given octets and port emits.
-/

set_option autoImplicit false
set_option relaxedAutoImplicit false

namespace InterFire

open ByteOrder

/-- The payload of one ring-buffer record. -/
structure TcpConnectEvent where
  pid : UInt32
  processStartTicks : UInt64
  destinationIpv4 : UInt32
  destinationPort : UInt16
  reserved : UInt16
  deriving DecidableEq, Repr

namespace TcpConnectEvent

/-- The native bytes of the destination word, as the address the daemon displays and matches. -/
def destinationOctets (event : TcpConnectEvent) : Octets := Octets.toNeBytes event.destinationIpv4

/-- The memory of an event with the C layout: four padding bytes follow the pid. -/
def toBytes (event : TcpConnectEvent) (padding : List UInt8) : List UInt8 :=
  toLittleEndian 4 event.pid.toNat ++ (padding ++ (toLittleEndian 8 event.processStartTicks.toNat ++
    (toLittleEndian 4 event.destinationIpv4.toNat ++
      (toLittleEndian 2 event.destinationPort.toNat ++ toLittleEndian 2 event.reserved.toNat))))

/-- The number held little-endian in a slice of a record. -/
def field (bytes : List UInt8) (start width : ℕ) : ℕ :=
  ofLittleEndian ((bytes.drop start).take width)

/-- Parse a ring-buffer record. -/
def tryFromBytes (bytes : List UInt8) : Option TcpConnectEvent :=
  if bytes.length < 24 then none
  else some
    { pid := UInt32.ofNat (field bytes 0 4)
      processStartTicks := UInt64.ofNat (field bytes 8 8)
      destinationIpv4 := UInt32.ofNat (field bytes 16 4)
      destinationPort := UInt16.ofNat (field bytes 20 2)
      reserved := UInt16.ofNat (field bytes 22 2) }

/-- A field that follows bytes of known length. -/
theorem field_append (front back : List UInt8) (width value : ℕ) (hlt : value < 256 ^ width) :
    field (front ++ (toLittleEndian width value ++ back)) front.length width = value := by
  rw [field, List.drop_left]
  have htake : (toLittleEndian width value ++ back).take width = toLittleEndian width value :=
    List.take_left' (length_toLittleEndian width value)
  rw [htake, ofLittleEndian_toLittleEndian hlt]

/-- The daemon parses back the event the kernel program wrote, whatever the padding bytes are.
Assumes: four of them. -/
theorem tryFromBytes_toBytes (event : TcpConnectEvent) {padding : List UInt8}
    (hpadding : padding.length = 4) : tryFromBytes (event.toBytes padding) = some event := by
  have hlength : ¬ (event.toBytes padding).length < 24 := by
    simp [toBytes, hpadding]
  have hpid : field (event.toBytes padding) 0 4 = event.pid.toNat :=
    field_append [] _ 4 _ event.pid.toNat_lt
  have hticks : field (event.toBytes padding) 8 8 = event.processStartTicks.toNat := by
    have hfield := field_append (toLittleEndian 4 event.pid.toNat ++ padding)
      (toLittleEndian 4 event.destinationIpv4.toNat ++
        (toLittleEndian 2 event.destinationPort.toNat ++ toLittleEndian 2 event.reserved.toNat))
      8 _ event.processStartTicks.toNat_lt
    simpa [toBytes, hpadding] using hfield
  have hipv4 : field (event.toBytes padding) 16 4 = event.destinationIpv4.toNat := by
    have hfield := field_append (toLittleEndian 4 event.pid.toNat ++ (padding ++
        toLittleEndian 8 event.processStartTicks.toNat))
      (toLittleEndian 2 event.destinationPort.toNat ++ toLittleEndian 2 event.reserved.toNat)
      4 _ event.destinationIpv4.toNat_lt
    simpa [toBytes, hpadding] using hfield
  have hport : field (event.toBytes padding) 20 2 = event.destinationPort.toNat := by
    have hfield := field_append (toLittleEndian 4 event.pid.toNat ++ (padding ++
        (toLittleEndian 8 event.processStartTicks.toNat ++
          toLittleEndian 4 event.destinationIpv4.toNat)))
      (toLittleEndian 2 event.reserved.toNat) 2 _ event.destinationPort.toNat_lt
    simpa [toBytes, hpadding] using hfield
  have hreserved : field (event.toBytes padding) 22 2 = event.reserved.toNat := by
    have hfield := field_append (toLittleEndian 4 event.pid.toNat ++ (padding ++
        (toLittleEndian 8 event.processStartTicks.toNat ++
          (toLittleEndian 4 event.destinationIpv4.toNat ++
            toLittleEndian 2 event.destinationPort.toNat))))
      [] 2 _ event.reserved.toNat_lt
    simpa [toBytes, hpadding] using hfield
  rw [tryFromBytes, if_neg hlength, hpid, hticks, hipv4, hport, hreserved]
  simp

end TcpConnectEvent

/-! ### The kernel program -/

/-- The address family of IPv4. -/
def afInet : UInt16 := 2

/-- The socket address as the program loads it from user memory. -/
structure SockAddrIn where
  sinFamily : UInt16
  sinPort : UInt16
  sinAddr : UInt32
  deriving DecidableEq, Repr

/-- Load a socket address from the first eight bytes of user memory. -/
def SockAddrIn.load (memory : List UInt8) : Option SockAddrIn :=
  if memory.length < 8 then none
  else some
    { sinFamily := UInt16.ofNat (ofLittleEndian (memory.take 2))
      sinPort := UInt16.ofNat (ofLittleEndian ((memory.drop 2).take 2))
      sinAddr := UInt32.ofNat (ofLittleEndian ((memory.drop 4).take 4)) }

/-- The host value of a 16-bit word loaded from memory in network order. -/
def fromBe16 (word : UInt16) : UInt16 :=
  UInt16.ofNat (ofBigEndian (toLittleEndian 2 word.toNat))

/-- The program on one `connect`: a missing argument or an unreadable address is the error 1,
another address family emits nothing, and an IPv4 address emits an event when the ring buffer has
room. -/
def tryTcpConnect (argument : Option (List UInt8)) (pidTgid : UInt64) (ringHasRoom : Bool) :
    Except UInt32 (Option TcpConnectEvent) :=
  match argument.bind SockAddrIn.load with
  | none => .error 1
  | some sockaddr =>
    if sockaddr.sinFamily ≠ afInet then .ok none
    else
      let event : TcpConnectEvent :=
        { pid := (pidTgid >>> 32).toUInt32
          processStartTicks := 0
          destinationIpv4 := Octets.fromBe sockaddr.sinAddr
          destinationPort := fromBe16 sockaddr.sinPort
          reserved := 0 }
      .ok (if ringHasRoom then some event else none)

/-- The memory of an IPv4 socket address: the family in native order, the port and the address in
network order. -/
def sockaddrMemory (octets : Octets) (port : UInt16) : List UInt8 :=
  toLittleEndian 2 afInet.toNat ++ ((toLittleEndian 2 port.toNat).reverse ++ octets.toList)

/-- The two bytes of a 16-bit word, least significant first. -/
theorem toLittleEndian_two (value : ℕ) :
    toLittleEndian 2 value = [UInt8.ofNat value, UInt8.ofNat (value / 256)] := by
  simp [toLittleEndian, List.range_succ]

/-- The event a connect to an address and port emits carries the big-endian number of the octets
and the port. -/
theorem tryTcpConnect_sockaddr (octets : Octets) (port : UInt16) (pidTgid : UInt64) :
    tryTcpConnect (some (sockaddrMemory octets port)) pidTgid true = .ok (some
      { pid := (pidTgid >>> 32).toUInt32
        processStartTicks := 0
        destinationIpv4 := octets.fromBeBytes
        destinationPort := port
        reserved := 0 }) := by
  have hport : port.toNat < 256 ^ 2 := port.toNat_lt
  have hload : SockAddrIn.load (sockaddrMemory octets port) = some
      { sinFamily := afInet
        sinPort := UInt16.ofNat (ofLittleEndian (toLittleEndian 2 port.toNat).reverse)
        sinAddr := octets.fromNeBytes } := by
    simp [SockAddrIn.load, sockaddrMemory, afInet, toLittleEndian_two, ofLittleEndian_cons,
      Octets.toList, Octets.fromNeBytes]
  have hswap : fromBe16 (UInt16.ofNat (ofLittleEndian (toLittleEndian 2 port.toNat).reverse)) =
      port := by
    have hlow : ofLittleEndian (toLittleEndian 2 port.toNat).reverse < 256 ^ 2 := by
      simp only [toLittleEndian_two, List.reverse_cons, List.reverse_nil, List.nil_append,
        List.cons_append, ofLittleEndian_cons, ofLittleEndian_nil, UInt8.toNat_ofNat']
      omega
    have hround : toLittleEndian 2 (ofLittleEndian (toLittleEndian 2 port.toNat).reverse) =
        (toLittleEndian 2 port.toNat).reverse := by
      simpa using toLittleEndian_ofLittleEndian (toLittleEndian 2 port.toNat).reverse
    have hword : (UInt16.ofNat (ofLittleEndian (toLittleEndian 2 port.toNat).reverse)).toNat =
        ofLittleEndian (toLittleEndian 2 port.toNat).reverse := by
      rw [UInt16.toNat_ofNat']
      exact Nat.mod_eq_of_lt hlow
    rw [fromBe16, hword, hround, ofBigEndian, List.reverse_reverse,
      ofLittleEndian_toLittleEndian hport, UInt16.ofNat_toNat]
  rw [tryTcpConnect, Option.bind_some, hload]
  simp only [ne_eq, not_true_eq_false, if_false, if_true, hswap, Octets.fromBe_fromNeBytes]

end InterFire
