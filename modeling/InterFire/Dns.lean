import InterFire.Basic
import InterFire.Library.FiniteMap
import InterFire.Library.Text

/-!
# Observed names of addresses

`crates/interfire-daemon/src/dns.rs`: a bounded map from the word of an IPv4 address to a hostname
and the instant the name expires. A name is stored in lower case, a lookup drops expired names
first, and a new address evicts the oldest ones when the map is full.

The lifetime of a name comes from the client, so the addition of it to the clock may panic
(`Instant.checkedAdd`): `DnsCache.observe` has no result exactly then.
-/

set_option autoImplicit false
set_option relaxedAutoImplicit false

namespace InterFire

structure DnsEntry where
  hostname : String
  expiresAt : Instant
  deriving DecidableEq, Repr

/-- Fresh names by address word. -/
structure DnsCache where
  capacity : ℕ
  capacity_pos : 0 < capacity
  defaultTtl : Duration
  byIp : FiniteMap UInt32 DnsEntry
  order : List UInt32

namespace DnsCache

/-- The empty cache. -/
def new (capacity : ℕ) (hcapacity : 0 < capacity) (defaultTtl : Duration) : DnsCache :=
  { capacity, capacity_pos := hcapacity, defaultTtl, byIp := FiniteMap.empty, order := [] }

/-- Drop the names that have expired, then the order keys that lost their name. -/
def expire (cache : DnsCache) (now : Instant) : DnsCache :=
  let byIp := cache.byIp.retain fun _ entry ↦ now < entry.expiresAt
  { cache with byIp, order := cache.order.filter fun ipv4 ↦ (byIp.get ipv4).isSome }

/-- Bind a name to an address, with the clock read once to expire and once to stamp the entry. No
result is a panic of the clock addition. -/
def observe (cache : DnsCache) (expireNow stampNow : Instant) (hostname : String) (ipv4 : UInt32)
    (ttl : Option Duration) : Option DnsCache := do
  let cache := cache.expire expireNow
  let expiresAt ← stampNow.checkedAdd (ttl.getD cache.defaultTtl)
  let entry := { hostname := Text.toAsciiLowercase hostname, expiresAt : DnsEntry }
  if (cache.byIp.get ipv4).isSome then
    return { cache with byIp := cache.byIp.insert ipv4 entry }
  let (order, byIp) := FiniteMap.makeRoom cache.capacity cache.order cache.byIp
  return { cache with order := order ++ [ipv4], byIp := byIp.insert ipv4 entry }

/-- The fresh name of an address. -/
def hostnameFor (cache : DnsCache) (now : Instant) (ipv4 : UInt32) : DnsCache × Option String :=
  let cache := cache.expire now
  (cache, (cache.byIp.get ipv4).map DnsEntry.hostname)

/-- The fresh names with their addresses and the whole seconds they have left, with the clock read
once to expire and once to count. -/
def listFresh (cache : DnsCache) (expireNow now : Instant) :
    DnsCache × List (String × UInt32 × ℕ) :=
  let cache := cache.expire expireNow
  (cache, cache.order.filterMap fun ipv4 ↦ (cache.byIp.get ipv4).map fun entry ↦
    (entry.hostname, ipv4, (entry.expiresAt - now) / 1000000000))

/-! ### What lookups return -/

/-- The name an address has at an instant. -/
def nameAt (cache : DnsCache) (now : Instant) (ipv4 : UInt32) : Option String :=
  (cache.hostnameFor now ipv4).2

/-- A lookup returns the stored name while it is fresh. -/
theorem nameAt_eq (cache : DnsCache) (now : Instant) (ipv4 : UInt32) :
    cache.nameAt now ipv4 =
      ((cache.byIp.get ipv4).filter fun entry ↦ now < entry.expiresAt).map DnsEntry.hostname := by
  simp [nameAt, hostnameFor, expire, FiniteMap.get_retain]

/-- After a note the noted address holds the new name, and every other binding was there before
it. Assumes: the note returned. -/
theorem get_observe {cache after : DnsCache} {expireNow stampNow : Instant} {hostname : String}
    {ipv4 : UInt32} {ttl : Option Duration}
    (hobserve : cache.observe expireNow stampNow hostname ipv4 ttl = some after) :
    after.byIp.get ipv4 = some
        { hostname := Text.toAsciiLowercase hostname
          expiresAt := stampNow + ttl.getD cache.defaultTtl } ∧
      ∀ other ≠ ipv4, ∀ entry, after.byIp.get other = some entry →
        cache.byIp.get other = some entry := by
  have hexpire : ∀ other entry, (cache.expire expireNow).byIp.get other = some entry →
      cache.byIp.get other = some entry := by
    intro other entry hget
    simp only [expire, FiniteMap.get_retain, Option.filter_eq_some_iff] at hget
    exact hget.1
  unfold observe at hobserve
  simp only [Option.bind_eq_bind, Option.bind_eq_some_iff, Instant.checkedAdd] at hobserve
  obtain ⟨expiresAt, hstamp, hresult⟩ := hobserve
  split_ifs at hstamp with hlimit
  obtain rfl := Option.some.inj hstamp
  split_ifs at hresult with hpresent
  · obtain rfl := Option.some.inj hresult
    refine ⟨FiniteMap.get_insert_self _ _ _, fun other hne entry hget ↦ ?_⟩
    exact hexpire other entry (by rwa [FiniteMap.get_insert_of_ne _ hne] at hget)
  · obtain rfl := Option.some.inj hresult
    refine ⟨FiniteMap.get_insert_self _ _ _, fun other hne entry hget ↦ ?_⟩
    rw [FiniteMap.get_insert_of_ne _ hne] at hget
    exact hexpire other entry (FiniteMap.get_of_get_makeRoom _ _ hget)

end DnsCache

end InterFire
