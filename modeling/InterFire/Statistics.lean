import InterFire.Basic
import InterFire.Library.FiniteMap
import InterFire.Library.Ipv4

/-!
# Recent destinations and connection statistics

`crates/interfire-daemon/src/recent.rs` and `stats.rs`. Both are bounded maps with an order queue:
`RecentConnects` keeps the last destinations of each process identity, `StatsStore` counts
attributed connections by host, executable, address, port and user. The five dimensions of the
statistics are one definition, `StatsDimension.bump`, at five key types. `pushDest_cases` are the two
things that a record makes of a row of destinations.
-/

set_option autoImplicit false
set_option relaxedAutoImplicit false

namespace InterFire

/-! ### Recent destinations -/

structure RecentDest where
  ipv4 : Octets
  port : UInt16
  verdict : String
  deriving DecidableEq, Repr

/-- The address and port of a destination. -/
def RecentDest.place (dest : RecentDest) : Octets × UInt16 := (dest.ipv4, dest.port)

/-- Recent destinations by pid and start time. -/
structure RecentConnects where
  capacityKeys : ℕ
  perKey : ℕ
  capacityKeys_pos : 0 < capacityKeys
  perKey_pos : 0 < perKey
  order : List (UInt32 × UInt64)
  entries : FiniteMap (UInt32 × UInt64) (List RecentDest)

namespace RecentConnects

/-- The empty table. -/
def new (capacityKeys perKey : ℕ) (hkeys : 0 < capacityKeys) (hper : 0 < perKey) :
    RecentConnects :=
  { capacityKeys, perKey, capacityKeys_pos := hkeys, perKey_pos := hper, order := [],
    entries := FiniteMap.empty }

/-- Add a destination to a row, newest last: a known destination takes the new verdict in place, a
new one pushes the oldest out of a full row. -/
def pushDest (perKey : ℕ) (queue : List RecentDest) (dest : RecentDest) : List RecentDest :=
  if queue.any fun row ↦ row.ipv4 = dest.ipv4 && row.port = dest.port then
    queue.replaceF fun row ↦
      if row.ipv4 = dest.ipv4 && row.port = dest.port then
        some { row with verdict := dest.verdict }
      else none
  else
    queue.drop (queue.length + 1 - perKey) ++ [dest]

/-- The row with the verdict of a destination, when it is about it. -/
def retold (dest row : RecentDest) : Option RecentDest :=
  if row.ipv4 = dest.ipv4 && row.port = dest.port then some { row with verdict := dest.verdict }
  else none

/-- A row about a destination becomes the destination itself. -/
theorem retold_eq_some {dest row changed : RecentDest} (hretold : retold dest row = some changed) :
    row.place = dest.place ∧ changed = dest := by
  unfold retold at hretold
  split_ifs at hretold with habout
  obtain ⟨hipv4, hport⟩ : row.ipv4 = dest.ipv4 ∧ row.port = dest.port := by simpa using habout
  refine ⟨?_, ?_⟩
  · rw [RecentDest.place, RecentDest.place, hipv4, hport]
  · rw [← Option.some.inj hretold, hipv4, hport]

/-- A destination takes the place of the first row about it, or joins the others at the end. -/
theorem pushDest_cases (perKey : ℕ) (queue : List RecentDest) (dest : RecentDest) :
    (∃ left row right, queue = left ++ row :: right ∧ (∀ other ∈ left, other.place ≠ dest.place) ∧
      row.place = dest.place ∧ pushDest perKey queue dest = left ++ dest :: right) ∨
    ((∀ row ∈ queue, row.place ≠ dest.place) ∧
      pushDest perKey queue dest = queue.drop (queue.length + 1 - perKey) ++ [dest]) := by
  by_cases hknown : queue.any fun row ↦ row.ipv4 = dest.ipv4 && row.port = dest.port
  · have hpush : pushDest perKey queue dest = queue.replaceF (retold dest) := if_pos hknown
    obtain ⟨known, hmem, habout⟩ := List.any_eq_true.mp hknown
    have htakes : retold dest known = some { known with verdict := dest.verdict } := if_pos habout
    obtain ⟨row, changed, left, right, hleft, hchanged, hqueue, hreplaced⟩ :=
      List.exists_of_replaceF hmem htakes
    obtain ⟨hplace, rfl⟩ := retold_eq_some hchanged
    refine .inl ⟨left, row, right, hqueue, fun other hother hsame ↦ ?_, hplace,
      hpush.trans hreplaced⟩
    obtain ⟨hipv4, hport⟩ := Prod.mk.inj hsame
    have hkept := hleft other hother
    simp [retold, hipv4, hport] at hkept
  · refine .inr ⟨fun row hmem hplace ↦ hknown (List.any_eq_true.mpr ⟨row, hmem, ?_⟩),
      if_neg hknown⟩
    obtain ⟨hipv4, hport⟩ := Prod.mk.inj hplace
    simp [hipv4, hport]

/-- Record a destination of a process identity. -/
def record (recent : RecentConnects) (pid : UInt32) (startTicks : UInt64) (dest : RecentDest) :
    RecentConnects :=
  let key := (pid, startTicks)
  let (order, entries) :=
    if (recent.entries.get key).isSome then (recent.order, recent.entries)
    else
      let (order, entries) := FiniteMap.makeRoom recent.capacityKeys recent.order recent.entries
      (order ++ [key], entries.insert key [])
  { recent with order, entries := entries.update key fun queue ↦ pushDest recent.perKey queue dest }

/-- The destinations of a process identity, oldest first. -/
def forProcess (recent : RecentConnects) (pid : UInt32) (startTicks : UInt64) : List RecentDest :=
  (recent.entries.get (pid, startTicks)).getD []

end RecentConnects

/-! ### Statistics -/

structure StatsCounters where
  hits : UInt64
  allow : UInt64
  deny : UInt64
  prompt : UInt64
  deriving DecidableEq, Repr

namespace StatsCounters

/-- No hit. -/
def zero : StatsCounters := ⟨0, 0, 0, 0⟩

/-- Count one connection with a verdict word. -/
def bump (counters : StatsCounters) (verdict : String) : StatsCounters :=
  let counters := { counters with hits := saturatingAdd counters.hits 1 }
  match verdict with
  | "allow" => { counters with allow := saturatingAdd counters.allow 1 }
  | "deny" => { counters with deny := saturatingAdd counters.deny 1 }
  | "prompt" => { counters with prompt := saturatingAdd counters.prompt 1 }
  | _ => counters

end StatsCounters

/-- One attributed connection as the statistics see it. -/
structure ConnectStats where
  executable : String
  host : String
  ipv4 : String
  port : UInt16
  uid : UInt32
  verdict : String
  deriving DecidableEq, Repr

/-- The most keys a dimension retains. -/
def maxStatsKeys : ℕ := 512

/-- The counters of one aggregate dimension and the order in which its keys were first seen. -/
structure StatsDimension (κ : Type) where
  counters : FiniteMap κ StatsCounters
  order : List κ

namespace StatsDimension

variable {κ : Type} [DecidableEq κ]

/-- The dimension with no key. -/
def empty : StatsDimension κ := ⟨FiniteMap.empty, []⟩

/-- Count a connection under a key, evicting the oldest keys when a new key finds the dimension
full. -/
def bump (dimension : StatsDimension κ) (key : κ) (verdict : String) : StatsDimension κ :=
  let (order, counters) :=
    if (dimension.counters.get key).isSome then (dimension.order, dimension.counters)
    else
      let (order, counters) :=
        FiniteMap.makeRoom maxStatsKeys dimension.order dimension.counters
      (order ++ [key], counters.insert key .zero)
  { counters := counters.update key fun row ↦ row.bump verdict, order }

/-- The rows, newest key first. -/
def snapshot (dimension : StatsDimension κ) : List (κ × StatsCounters) :=
  dimension.order.reverse.filterMap fun key ↦ (dimension.counters.get key).map (key, ·)

end StatsDimension

/-- The aggregates since daemon start. -/
structure StatsStore where
  connections : UInt64
  denied : UInt64
  hosts : StatsDimension String
  procs : StatsDimension String
  addrs : StatsDimension String
  ports : StatsDimension UInt16
  users : StatsDimension UInt32

namespace StatsStore

/-- The store with no connection. -/
def new : StatsStore := ⟨0, 0, .empty, .empty, .empty, .empty, .empty⟩

/-- Record an attributed connection in all dimensions. -/
def record (store : StatsStore) (hit : ConnectStats) : StatsStore :=
  { connections := saturatingAdd store.connections 1
    denied := if hit.verdict = "deny" then saturatingAdd store.denied 1 else store.denied
    hosts := store.hosts.bump hit.host hit.verdict
    procs := store.procs.bump hit.executable hit.verdict
    addrs := store.addrs.bump hit.ipv4 hit.verdict
    ports := store.ports.bump hit.port hit.verdict
    users := store.users.bump hit.uid hit.verdict }

/-- Count an unattributed connection as seen and denied. -/
def recordUnattributedDeny (store : StatsStore) : StatsStore :=
  { store with
    connections := saturatingAdd store.connections 1
    denied := saturatingAdd store.denied 1 }

end StatsStore

end InterFire
