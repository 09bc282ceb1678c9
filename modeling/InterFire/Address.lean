import InterFire.Policy

/-!
# One address through the pipeline

A destination address crosses the daemon in five forms: the word of a connect event, the word of a
packet, the key of a noted name, the octets that rules, statistics and recent destinations see, and
the text of a prompt. `dnsNote` is the handler of `crates/interfire-daemon/src/ipc.rs` that reads an
address from text.

The kernel program and the packet parser read the octets most significant first; the note, the
display and the octets of an event use the native order, which is the opposite one here. So the
forms of an address agree exactly when it reads the same in both orders
(`representations_agree_iff`).
-/

set_option autoImplicit false
set_option relaxedAutoImplicit false

namespace InterFire

open Policy

/-- How a note ends. A panic happens while the lock is held. -/
inductive DnsNoteReply
  | pong
  | error (code : String)
  | panicked
  deriving DecidableEq, Repr

/-- The word under which a note stores its name. -/
def dnsNoteKey (ipv4 : String) : Option UInt32 := (Octets.fromText ipv4).map Octets.fromNeBytes

/-- The handler of a note. -/
def dnsNote (peerMayMutate : Bool) (expireNow stampNow : Instant) (hostname ipv4 : String)
    (ttlSecs : Option UInt64) (dns : Mutex DnsCache) : Mutex DnsCache × DnsNoteReply :=
  if !peerMayMutate then (dns, .error "unauthorized")
  else if hostname = "" ∨ '|' ∈ hostname.toList then (dns, .error "invalid_hostname")
  else
    match dnsNoteKey ipv4 with
    | none => (dns, .error "invalid_ipv4")
    | some ipv4 =>
      match dns.lock with
      | none => (dns, .error "lock_poisoned")
      | some cache =>
        let ttl := ttlSecs.map fun seconds ↦ Duration.fromSecs seconds.toNat
        match cache.observe expireNow stampNow hostname ipv4 ttl with
        | some cache => (dns.store cache, .pong)
        | none => ({ dns with poisoned := true }, .panicked)

/-- The daemon received the event for a connect to an address: the kernel program read the socket
address, wrote the event to the ring buffer, and the daemon parsed it. -/
def ConnectsTo (octets : Octets) (event : TcpConnectEvent) : Prop :=
  ∃ port pidTgid emitted padding, padding.length = 4 ∧
    tryTcpConnect (some (sockaddrMemory octets port)) pidTgid true = .ok (some emitted) ∧
    TcpConnectEvent.tryFromBytes (emitted.toBytes padding) = some event

/-- The raw packet carries an address in its destination field. -/
def SentTo (octets : Octets) (payload : List UInt8) : Prop :=
  (payload.drop 16).take 4 = octets.toList

/-- The rule applies to the connection but for its address. -/
def MatchesElsewhere (rule : Rule) (connection : Connection) : Prop :=
  { rule with address := none }.matches connection = true

/-- All forms of an address agree, and what is built on them means the address. -/
structure RepresentationsAgree (octets : Octets) : Prop where
  /-- The word of a packet is the word of the event. -/
  packet : ∀ event payload key, ConnectsTo octets event → SentTo octets payload →
    tcpDestination payload = some key → key.ipv4 = event.destinationIpv4
  /-- The key of a note is the word of the event. -/
  note : ∀ event, ConnectsTo octets event →
    dnsNoteKey octets.toText = some event.destinationIpv4
  /-- The octets of the event are the address, for the rules, the statistics and the recent
  destinations. -/
  event : ∀ event identity now dns recent label, ConnectsTo octets event →
    event.destinationOctets = octets ∧
    (connectionFrom identity event now dns).2.address = .v4 octets ∧
    (connectStats identity event now dns label).2.ipv4 = octets.toText ∧
    recordRecent recent identity event label = recent.record identity.pid identity.startTicks
      { ipv4 := octets, port := event.destinationPort, verdict := label }
  /-- The prompt shows the address. -/
  display : ∀ event identity, ConnectsTo octets event →
    (promptKey identity event).ipv4Display = octets.toText
  /-- A rule with the address matches exactly the connects to it. -/
  rule : ∀ rule other event identity now dns, ConnectsTo other event →
    rule.address = some (.v4 octets) →
    MatchesElsewhere rule (connectionFrom identity event now dns).2 →
    (rule.matches (connectionFrom identity event now dns).2 = true ↔ other = octets)
  /-- A fresh note of the address annotates the connects to it, and no others. -/
  annotation : ∀ expireNow stampNow hostname ttlSecs cache after other event identity now,
    dnsNote true expireNow stampNow hostname octets.toText ttlSecs (.new cache) =
      (.new after, .pong) →
    now < stampNow + (ttlSecs.map fun seconds ↦ Duration.fromSecs seconds.toNat).getD
      cache.defaultTtl →
    ConnectsTo other event →
    (other = octets → (connectionFrom identity event now after).2.hostname =
      some (Text.toAsciiLowercase hostname)) ∧
    (other ≠ octets → ∀ name, (connectionFrom identity event now after).2.hostname = some name →
      (connectionFrom identity event now cache).2.hostname = some name)

/-! ### What each stage computes -/

/-- The event of a connect carries the big-endian word of the address. Assumes: the connect is to
the address. -/
theorem ipv4_of_connectsTo {octets : Octets} {event : TcpConnectEvent}
    (hconnects : ConnectsTo octets event) : event.destinationIpv4 = octets.fromBeBytes := by
  obtain ⟨port, pidTgid, emitted, padding, hpadding, hemitted, hparsed⟩ := hconnects
  rw [tryTcpConnect_sockaddr] at hemitted
  rw [TcpConnectEvent.tryFromBytes_toBytes emitted hpadding] at hparsed
  obtain rfl := Option.some.inj hparsed
  rw [← Option.some.inj (Except.ok.inj hemitted)]

/-- Every address is connected to by some event. -/
theorem exists_connectsTo (octets : Octets) : ∃ event, ConnectsTo octets event :=
  ⟨_, 0, 0, _, [0, 0, 0, 0], rfl, tryTcpConnect_sockaddr octets 0 0,
    TcpConnectEvent.tryFromBytes_toBytes _ rfl⟩

/-- The octets of the event are the address in reverse. Assumes: the connect is to the address. -/
theorem octets_of_connectsTo {octets : Octets} {event : TcpConnectEvent}
    (hconnects : ConnectsTo octets event) : event.destinationOctets = octets.reverse := by
  rw [TcpConnectEvent.destinationOctets, ipv4_of_connectsTo hconnects, Octets.toNeBytes_fromBeBytes]

/-- The key of a note is the big-endian word of the address in reverse. -/
theorem dnsNoteKey_toText (octets : Octets) :
    dnsNoteKey octets.toText = some octets.reverse.fromBeBytes := by
  rw [dnsNoteKey, Octets.fromText_toText, Option.map_some, Octets.fromNeBytes_eq]

/-- The word of a packet is the big-endian word of its address. Assumes: the packet parses and is
sent to the address. -/
theorem ipv4_of_sentTo {octets : Octets} {payload : List UInt8} {key : DestKey}
    (hsent : SentTo octets payload) (hkey : tcpDestination payload = some key) :
    key.ipv4 = octets.fromBeBytes := by
  obtain ⟨read, hread, hword⟩ := ipv4_of_tcpDestination hkey
  rw [hword, Octets.toList_injective (hread.symm.trans hsent)]

/-- The hostname of the connection is the fresh name of the event's word. -/
theorem hostname_connectionFrom (identity : ProcessIdentity) (event : TcpConnectEvent)
    (now : Instant) (dns : DnsCache) :
    (connectionFrom identity event now dns).2.hostname = dns.nameAt now event.destinationIpv4 := rfl

/-- A rule that applies but for its address applies exactly when the address is the one the
connection shows. Assumes: the rule has an IPv4 address and applies but for it. -/
theorem matches_iff_of_matchesElsewhere {rule : Rule} {octets : Octets} {connection : Connection}
    (haddress : rule.address = some (.v4 octets)) (helse : MatchesElsewhere rule connection) :
    rule.matches connection = true ↔ connection.address = .v4 octets := by
  simp only [MatchesElsewhere, Rule.matches, Rule.admits, Option.all_none, Bool.and_true,
    Bool.and_eq_true] at helse
  simp only [Rule.matches, Rule.admits, haddress, helse, Option.all_some, Bool.and_true,
    Bool.true_and, decide_eq_true_eq]
  exact eq_comm

/-- A note that was answered stored its name. Assumes: the reply is pong. -/
theorem observe_of_dnsNote {expireNow stampNow : Instant} {hostname : String} {octets : Octets}
    {ttlSecs : Option UInt64} {cache after : DnsCache}
    (hnote : dnsNote true expireNow stampNow hostname octets.toText ttlSecs (.new cache) =
      (.new after, .pong)) :
    cache.observe expireNow stampNow hostname octets.reverse.fromBeBytes
      (ttlSecs.map fun seconds ↦ Duration.fromSecs seconds.toNat) = some after := by
  simp only [dnsNote, dnsNoteKey_toText, Mutex.lock_new, Bool.not_true, Bool.false_eq_true,
    if_false] at hnote
  split_ifs at hnote with hhostname
  · simp at hnote
  · split at hnote
    · next observed hobserve =>
      have hafter : Mutex.store (.new cache) observed = .new after := (Prod.mk.inj hnote).1
      rw [hobserve, show observed = after from congrArg Mutex.value hafter]
    · simp at hnote

/-- After a note, the noted word has the new name while it is fresh, and another word has only names
it had before. Assumes: the note was stored. -/
theorem nameAt_of_observe {cache after : DnsCache} {expireNow stampNow : Instant}
    {hostname : String} {word : UInt32} {ttl : Option Duration}
    (hobserve : cache.observe expireNow stampNow hostname word ttl = some after) (now : Instant) :
    (now < stampNow + ttl.getD cache.defaultTtl →
      after.nameAt now word = some (Text.toAsciiLowercase hostname)) ∧
    ∀ other ≠ word, ∀ name, after.nameAt now other = some name →
      cache.nameAt now other = some name := by
  obtain ⟨hstored, hothers⟩ := DnsCache.get_observe hobserve
  simp only [DnsCache.nameAt_eq]
  refine ⟨fun hfresh ↦ ?_, fun other hne name hname ↦ ?_⟩
  · rw [hstored]
    simp [hfresh]
  · simp only [Option.map_eq_some_iff, Option.filter_eq_some_iff] at hname ⊢
    obtain ⟨entry, ⟨hget, hfresh⟩, rfl⟩ := hname
    exact ⟨entry, ⟨hothers other hne entry hget, hfresh⟩, rfl⟩

/-! ### The addresses that agree -/

/-- All forms of an address that reads the same in both orders agree. Assumes: it does. -/
theorem representationsAgree_of_reverse {octets : Octets} (hreverse : octets.reverse = octets) :
    RepresentationsAgree octets where
  packet event payload key hconnects hsent hkey := by
    rw [ipv4_of_sentTo hsent hkey, ipv4_of_connectsTo hconnects]
  note event hconnects := by
    rw [dnsNoteKey_toText, hreverse, ipv4_of_connectsTo hconnects]
  event event identity now dns recent label hconnects := by
    have hoctets : event.destinationOctets = octets :=
      (octets_of_connectsTo hconnects).trans hreverse
    refine ⟨hoctets, congrArg IpAddr.v4 hoctets, congrArg Octets.toText hoctets, ?_⟩
    rw [recordRecent, hoctets]
  display event identity hconnects := by
    have hoctets : event.destinationOctets = octets :=
      (octets_of_connectsTo hconnects).trans hreverse
    exact congrArg Octets.toText hoctets
  rule rule other event identity now dns hconnects haddress helse := by
    rw [matches_iff_of_matchesElsewhere haddress helse]
    have hshown : (connectionFrom identity event now dns).2.address = .v4 other.reverse :=
      congrArg IpAddr.v4 (octets_of_connectsTo hconnects)
    rw [hshown, IpAddr.v4.injEq]
    constructor
    · intro heq
      rw [← Octets.reverse_reverse other, heq, hreverse]
    · rintro rfl
      exact hreverse
  annotation expireNow stampNow hostname ttlSecs cache after other event identity now hnote hfresh
      hconnects := by
    have hobserve := observe_of_dnsNote hnote
    obtain ⟨hnamed, hothers⟩ := nameAt_of_observe hobserve now
    simp only [hostname_connectionFrom, ipv4_of_connectsTo hconnects]
    refine ⟨?_, fun hne name hname ↦ hothers _ (fun hword ↦ hne ?_) name hname⟩
    · rintro rfl
      rw [← hreverse]
      exact hnamed hfresh
    · exact (Octets.fromBeBytes_injective hword).trans hreverse

/-- The forms of an address agree exactly when its first octet is its fourth and its second octet
is its third. -/
theorem representations_agree_iff (octets : Octets) :
    RepresentationsAgree octets ↔
      octets.first = octets.fourth ∧ octets.second = octets.third := by
  rw [← Octets.reverse_eq_self_iff]
  refine ⟨fun hagree ↦ ?_, representationsAgree_of_reverse⟩
  obtain ⟨event, hconnects⟩ := exists_connectsTo octets
  have hkey := hagree.note event hconnects
  rw [dnsNoteKey_toText, ipv4_of_connectsTo hconnects] at hkey
  exact Octets.fromBeBytes_injective (Option.some.inj hkey)

/-- A connect to 1.2.3.4 is shown, matched and annotated as 4.3.2.1. -/
theorem representations_disagree : ¬ RepresentationsAgree ⟨1, 2, 3, 4⟩ := by
  intro hagree
  obtain ⟨event, hconnects⟩ := exists_connectsTo ⟨1, 2, 3, 4⟩
  have hkey := hagree.note event hconnects
  rw [dnsNoteKey_toText, ipv4_of_connectsTo hconnects] at hkey
  revert hkey
  decide

end InterFire
