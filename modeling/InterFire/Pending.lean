import InterFire.Basic
import InterFire.Library.FiniteMap
import InterFire.Library.Ipv4

/-!
# Pending packet verdicts

`crates/interfire-daemon/src/pending.rs` and `packet.rs`. `PendingTable` holds the verdicts of
recent connect decisions by destination word and port until a packet takes them, and
`tcpDestination` reads that key from a raw packet. Each clock reading of the source is an argument.

Every operation starts with `expire`. The lemmas say what one operation does to the entry of a key:
`get_expire_of_fresh` and `get_of_get_expire` for the expiry, `get_insert_self` and
`get_insert_of_ne` for a decision, `take_of_fresh` and `get_take_of_ne` for a packet.
-/

set_option autoImplicit false
set_option relaxedAutoImplicit false

namespace InterFire

open ByteOrder

/-- The destination by which events and packets are joined. -/
structure DestKey where
  ipv4 : UInt32
  port : UInt16
  deriving DecidableEq, Repr

/-- What the kernel does with a queued packet. -/
inductive PacketVerdict
  | accept
  | drop
  deriving DecidableEq, Repr

structure PendingEntry where
  verdict : PacketVerdict
  insertedAt : Instant
  deriving DecidableEq, Repr

structure PendingTable where
  capacity : ℕ
  capacity_pos : 0 < capacity
  ttl : Duration
  entries : FiniteMap DestKey PendingEntry
  order : List DestKey

namespace PendingTable

/-- The empty table. -/
def new (capacity : ℕ) (hcapacity : 0 < capacity) (ttl : Duration) : PendingTable :=
  { capacity, capacity_pos := hcapacity, ttl, entries := .empty, order := [] }

/-- Walk the order queue: a key without an entry leaves the queue, a key with a stale entry leaves
the queue and the table. -/
def retainFresh (now : Instant) (ttl : Duration) : List DestKey → FiniteMap DestKey PendingEntry →
    List DestKey × FiniteMap DestKey PendingEntry
  | [], entries => ([], entries)
  | key :: rest, entries =>
    match entries.get key with
    | none => retainFresh now ttl rest entries
    | some entry =>
      if ttl < now - entry.insertedAt then retainFresh now ttl rest (entries.remove key)
      else
        let (order, entries) := retainFresh now ttl rest entries
        (key :: order, entries)

def expire (table : PendingTable) (now : Instant) : PendingTable :=
  let (order, entries) := retainFresh now table.ttl table.order table.entries
  { table with order, entries }

/-- Store the verdict of a decision. A known key takes the new entry and keeps its place in the
order; a new key evicts the oldest ones from a full table. -/
def insert (table : PendingTable) (expireNow stampNow : Instant) (key : DestKey)
    (verdict : PacketVerdict) : PendingTable :=
  let table := table.expire expireNow
  let fresh := { verdict, insertedAt := stampNow : PendingEntry }
  if (table.entries.get key).isSome then
    { table with entries := table.entries.insert key fresh }
  else
    let (order, entries) := FiniteMap.makeRoom table.capacity table.order table.entries
    { table with order := order ++ [key], entries := entries.insert key fresh }

/-- Remove and return the verdict of a key. -/
def take (table : PendingTable) (now : Instant) (key : DestKey) :
    PendingTable × Option PacketVerdict :=
  let table := table.expire now
  ({ table with entries := table.entries.remove key },
    (table.entries.get key).map PendingEntry.verdict)

/-! ### What the operations do to an entry -/

section Expiry

variable {now : Instant} {ttl : Duration} {key : DestKey} {entry : PendingEntry}

theorem get_of_get_retainFresh (order : List DestKey) (entries : FiniteMap DestKey PendingEntry)
    (hget : (retainFresh now ttl order entries).2.get key = some entry) :
    entries.get key = some entry := by
  induction order generalizing entries with
  | nil => exact hget
  | cons oldest rest ih =>
    unfold retainFresh at hget
    split at hget
    · exact ih entries hget
    · split_ifs at hget with hstale
      · have hkept := ih _ hget
        rw [FiniteMap.get_remove] at hkept
        split_ifs at hkept
        exact hkept
      · exact ih entries hget

/-- Assumes: the entry is fresh. -/
theorem get_retainFresh_of_fresh (order : List DestKey) (entries : FiniteMap DestKey PendingEntry)
    (hget : entries.get key = some entry) (hfresh : now - entry.insertedAt ≤ ttl) :
    (retainFresh now ttl order entries).2.get key = some entry := by
  induction order generalizing entries with
  | nil => exact hget
  | cons oldest rest ih =>
    unfold retainFresh
    split
    · exact ih entries hget
    · next other hother =>
      split_ifs with hstale
      · have hne : key ≠ oldest := by
          rintro rfl
          obtain rfl := Option.some.inj (hget.symm.trans hother)
          exact absurd hstale (not_lt.mpr hfresh)
        exact ih _ ((FiniteMap.get_remove_of_ne entries hne).trans hget)
      · exact ih entries hget

theorem len_retainFresh_le (order : List DestKey) (entries : FiniteMap DestKey PendingEntry) :
    (retainFresh now ttl order entries).2.len ≤ entries.len := by
  induction order generalizing entries with
  | nil => exact le_rfl
  | cons oldest rest ih =>
    unfold retainFresh
    split
    · exact ih entries
    · split_ifs with hstale
      · exact (ih _).trans (FiniteMap.len_remove_le entries oldest)
      · exact ih entries

end Expiry

variable (table : PendingTable) {key other : DestKey} {entry : PendingEntry}

@[simp] theorem ttl_expire (now : Instant) : (table.expire now).ttl = table.ttl := rfl

@[simp] theorem capacity_expire (now : Instant) : (table.expire now).capacity = table.capacity :=
  rfl

/-- Expiry invents no entry. Assumes: the entry is there afterwards. -/
theorem get_of_get_expire {now : Instant} (hget : (table.expire now).entries.get key = some entry) :
    table.entries.get key = some entry :=
  get_of_get_retainFresh _ _ hget

/-- Expiry keeps a fresh entry. Assumes: the entry is there and fresh. -/
theorem get_expire_of_fresh {now : Instant} (hget : table.entries.get key = some entry)
    (hfresh : now - entry.insertedAt ≤ table.ttl) :
    (table.expire now).entries.get key = some entry :=
  get_retainFresh_of_fresh _ _ hget hfresh

@[simp] theorem ttl_insert (expireNow stampNow : Instant) (verdict : PacketVerdict) :
    (table.insert expireNow stampNow key verdict).ttl = table.ttl := by
  unfold insert
  dsimp only
  split_ifs <;> rfl

@[simp] theorem ttl_take (now : Instant) : (table.take now key).1.ttl = table.ttl := rfl

/-- The entry of the inserted key. -/
theorem get_insert_self (expireNow stampNow : Instant) (verdict : PacketVerdict) :
    (table.insert expireNow stampNow key verdict).entries.get key = some ⟨verdict, stampNow⟩ := by
  unfold insert
  dsimp only
  split_ifs with hpresent
  · exact FiniteMap.get_insert_self _ _ _
  · exact FiniteMap.get_insert_self _ _ _

/-- An insertion keeps the fresh entries of the other keys. Assumes: the table has room. -/
theorem get_insert_of_ne (hne : other ≠ key) {expireNow : Instant} (stampNow : Instant)
    (verdict : PacketVerdict) (hget : table.entries.get other = some entry)
    (hfresh : expireNow - entry.insertedAt ≤ table.ttl)
    (hroom : table.entries.len < table.capacity) :
    (table.insert expireNow stampNow key verdict).entries.get other = some entry := by
  have hkept := table.get_expire_of_fresh hget hfresh
  have hlen : (table.expire expireNow).entries.len < (table.expire expireNow).capacity :=
    (len_retainFresh_le _ _).trans_lt hroom
  unfold insert
  dsimp only
  split_ifs with hpresent
  · exact (FiniteMap.get_insert_of_ne _ hne _).trans hkept
  · rw [FiniteMap.makeRoom_of_lt _ hlen]
    exact (FiniteMap.get_insert_of_ne _ hne _).trans hkept

/-- A packet takes the verdict of a fresh entry. Assumes: the entry is there and fresh. -/
theorem take_of_fresh {now : Instant} (hget : table.entries.get key = some entry)
    (hfresh : now - entry.insertedAt ≤ table.ttl) :
    (table.take now key).2 = some entry.verdict := by
  simp only [take, table.get_expire_of_fresh hget hfresh, Option.map_some]

/-- A take keeps the fresh entries of the other keys. -/
theorem get_take_of_ne (hne : other ≠ key) {now : Instant}
    (hget : table.entries.get other = some entry) (hfresh : now - entry.insertedAt ≤ table.ttl) :
    (table.take now key).1.entries.get other = some entry :=
  (FiniteMap.get_remove_of_ne _ hne).trans (table.get_expire_of_fresh hget hfresh)

end PendingTable

/-! ### The key of a packet -/

/-- The protocol number of TCP. -/
def ipprotoTcp : UInt8 := 6

/-- The destination address and TCP port of a raw IPv4 packet. The lengths that the checks have
established bound every index. -/
def tcpDestination (payload : List UInt8) : Option DestKey :=
  if hshort : payload.length < 20 then none
  else if payload[0] >>> 4 ≠ 4 then none
  else
    let ihl := (payload[0] &&& 0x0f).toNat * 4
    if hihl : ihl < 20 ∨ payload.length < ihl + 4 then none
    else if payload[9] ≠ ipprotoTcp then none
    else some
      { ipv4 := Octets.fromBeBytes ⟨payload[16], payload[17], payload[18], payload[19]⟩
        port := UInt16.ofNat (ofBigEndian [payload[ihl + 2], payload[ihl + 3]]) }

/-- The word of a parsed packet is the big-endian number of the four bytes of its destination
field. Assumes: the packet parses. -/
theorem ipv4_of_tcpDestination {payload : List UInt8} {key : DestKey}
    (hkey : tcpDestination payload = some key) :
    ∃ octets : Octets, (payload.drop 16).take 4 = octets.toList ∧
      key.ipv4 = octets.fromBeBytes := by
  unfold tcpDestination at hkey
  split at hkey
  · cases hkey
  · next hlong =>
    split at hkey
    · cases hkey
    · dsimp only at hkey
      split at hkey
      · cases hkey
      · split at hkey
        · cases hkey
        · obtain rfl := Option.some.inj hkey
          refine ⟨⟨payload[16], payload[17], payload[18], payload[19]⟩, ?_, rfl⟩
          rw [List.drop_eq_getElem_cons (by omega), List.drop_eq_getElem_cons (by omega),
            List.drop_eq_getElem_cons (by omega), List.drop_eq_getElem_cons (by omega)]
          rfl

end InterFire
