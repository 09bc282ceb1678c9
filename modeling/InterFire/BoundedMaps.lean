import InterFire.Evictions
import InterFire.Process
import InterFire.Proto
import InterFire.StatsAccounting

/-!
# The bounded maps of the daemon

Five types keep a map with a queue of its keys beside it: the pending verdicts, the names, the recent
destinations, the process identities and the dimensions of the statistics. The invariant of all of
them is that of `FiniteMap.HeldBy` and `FiniteMap.TightBy`: the map is within its capacity, the queue
holds every key of the map and none twice, and, once an expiry has passed over it, no other key. A
queue with the keys of the map does not run out while room is made, so the branch that clears the map
is not taken.

The lists that are shown along a queue then have a row for each key of the map. A row of the recent
destinations has no destination twice, and each with the verdict of its latest record
(`latestRecord_of_mem`). `bounded_maps_represented` puts the five together.
-/

set_option autoImplicit false
set_option relaxedAutoImplicit false

namespace InterFire

open Run (stateAt_length exists_source_of_view)

/-! ### Pending verdicts -/

/-- The queue holds the keys of the table, and after an expiry no other key. -/
structure PendingTable.Represented (capacity : ℕ) (table : PendingTable) : Prop where
  held : table.entries.HeldBy capacity table.order
  live : ∀ now, (table.expire now).entries.TightBy capacity (table.expire now).order

theorem PendingTable.represented_of_sound {table : PendingTable} (hsound : table.Sound) :
    table.Represented table.capacity := by
  refine ⟨⟨hsound.bounded, hsound.covered, hsound.nodup⟩, fun now ↦ ?_⟩
  have hbounded := (sound_expire hsound now).bounded
  exact (orderedBy_expire hsound now).tightBy hbounded table.capacity_pos

/-- The table after any operations. -/
theorem PendingTable.represented_run {capacity : ℕ} (hcapacity : 0 < capacity) (ttl : Duration)
    (ops : List PendingOp) :
    (ops.foldl step (new capacity hcapacity ttl)).Represented capacity := by
  have hrun : (ops.foldl step (new capacity hcapacity ttl)).Sound ∧
      (ops.foldl step (new capacity hcapacity ttl)).capacity = capacity :=
    List.foldlRecOn (motive := fun table ↦ table.Sound ∧ table.capacity = capacity) ops step
      ⟨sound_new capacity hcapacity ttl, rfl⟩
      fun table htable op _ ↦ ⟨sound_step htable.1 op, (table.capacity_step op).trans htable.2⟩
  have hrepresented := represented_of_sound hrun.1
  rwa [hrun.2] at hrepresented

/-! ### Names -/

/-- The queue holds the addresses of the names, and the list of names has a row for each that is
fresh. -/
structure DnsCache.Represented (capacity : ℕ) (cache : DnsCache) : Prop where
  held : cache.byIp.HeldBy capacity cache.order
  live : ∀ now, (cache.expire now).byIp.TightBy capacity (cache.expire now).order
  listed : ∀ expireNow now, ((cache.listFresh expireNow now).2.map fun row ↦ row.2.1).Perm
    (cache.expire expireNow).byIp.keys

theorem DnsCache.represented_of_sound {cache : DnsCache} (hsound : cache.Sound) :
    cache.Represented cache.capacity where
  held := (hsound.ordered.tightBy hsound.bounded cache.capacity_pos).toHeldBy
  live now := (sound_expire hsound now).ordered.tightBy (sound_expire hsound now).bounded
    cache.capacity_pos
  listed expireNow now := by
    have hordered := (sound_expire hsound expireNow).ordered
    have hkeys : ((cache.listFresh expireNow now).2.map fun row ↦ row.2.1) =
        (cache.expire expireNow).order := hordered.map_filterMap fun _ _ _ ↦ rfl
    rw [hkeys]
    exact hordered.perm_keys

theorem DnsCache.capacity_step (cache : DnsCache) (op : DnsOp) :
    (cache.step op).capacity = cache.capacity := by
  cases op with
  | hostnameFor now ipv4 => rfl
  | listFresh expireNow now => rfl
  | observe expireNow stampNow hostname ipv4 ttl =>
    cases hobserve : cache.observe expireNow stampNow hostname ipv4 ttl with
    | none => rw [step, hobserve, Option.getD_none, expire]
    | some after =>
      obtain ⟨entry, hafter⟩ := observe_eq_store hobserve
      rw [step, hobserve, Option.getD_some, hafter, expire]

/-- The cache after any operations. -/
theorem DnsCache.represented_run {capacity : ℕ} (hcapacity : 0 < capacity) (defaultTtl : Duration)
    (ops : List DnsOp) :
    (ops.foldl step (new capacity hcapacity defaultTtl)).Represented capacity := by
  have hrun : (ops.foldl step (new capacity hcapacity defaultTtl)).Sound ∧
      (ops.foldl step (new capacity hcapacity defaultTtl)).capacity = capacity :=
    List.foldlRecOn (motive := fun cache ↦ cache.Sound ∧ cache.capacity = capacity) ops step
      ⟨sound_new capacity hcapacity defaultTtl, rfl⟩
      fun cache hcache op _ ↦
        ⟨cache.sound_step op hcache.1, (cache.capacity_step op).trans hcache.2⟩
  have hrepresented := represented_of_sound hrun.1
  rwa [hrun.2] at hrepresented

/-! ### Recent destinations -/

/-- A call that records a destination of a process identity. -/
structure RecentRecord where
  pid : UInt32
  startTicks : UInt64
  dest : RecentDest
  deriving DecidableEq, Repr

/-- The record is about a destination of an identity. -/
def RecentRecord.IsAbout (record : RecentRecord) (pid : UInt32) (startTicks : UInt64)
    (dest : RecentDest) : Prop :=
  record.pid = pid ∧ record.startTicks = startTicks ∧ record.dest.place = dest.place

namespace RecentConnects

def step (recent : RecentConnects) (record : RecentRecord) : RecentConnects :=
  recent.record record.pid record.startTicks record.dest

/-- A row holds no more destinations than it may, and none twice. -/
structure RowSound (perKey : ℕ) (queue : List RecentDest) : Prop where
  few : queue.length ≤ perKey
  nodup : (queue.map RecentDest.place).Nodup

theorem rowSound_pushDest {perKey : ℕ} (hper : 0 < perKey) {queue : List RecentDest}
    (hsound : RowSound perKey queue) (dest : RecentDest) :
    RowSound perKey (pushDest perKey queue dest) := by
  obtain ⟨hfew, hnodup⟩ := hsound
  rcases pushDest_cases perKey queue dest with
    ⟨left, row, right, rfl, -, hplace, hpush⟩ | ⟨hnew, hpush⟩
  · rw [hpush]
    refine ⟨?_, ?_⟩
    · rwa [List.length_append, List.length_cons] at hfew ⊢
    · rwa [List.map_append, List.map_cons, hplace, ← List.map_cons, ← List.map_append] at hnodup
  · rw [hpush]
    refine ⟨?_, ?_⟩
    · rw [List.length_append, List.length_drop, List.length_singleton]
      omega
    · rw [List.map_append, List.map_singleton, ← List.concat_eq_append]
      have hkept := hnodup.sublist ((List.drop_sublist (queue.length + 1 - perKey) queue).map _)
      refine hkept.concat ?_
      rw [List.mem_map]
      rintro ⟨row, hmem, hplace⟩
      exact hnew row (List.mem_of_mem_drop hmem) hplace

/-- The destinations of a pushed row are the pushed one and those of other places. Assumes: no
destination is there twice. -/
theorem mem_pushDest {perKey : ℕ} {queue : List RecentDest}
    (hnodup : (queue.map RecentDest.place).Nodup) {dest row : RecentDest}
    (hmem : row ∈ pushDest perKey queue dest) :
    row = dest ∨ (row ∈ queue ∧ row.place ≠ dest.place) := by
  rcases pushDest_cases perKey queue dest with
    ⟨left, old, right, rfl, -, hplace, hpush⟩ | ⟨hnew, hpush⟩
  · rw [hpush] at hmem
    rw [List.map_append, List.map_cons, List.nodup_middle, List.nodup_cons, ← List.map_append,
      hplace, List.mem_map] at hnodup
    have hother : row ∈ left ++ right → row.place ≠ dest.place :=
      fun hin heq ↦ hnodup.1 ⟨row, hin, heq⟩
    rcases List.mem_append.mp hmem with hleft | hright
    · exact .inr ⟨List.mem_append_left _ hleft, hother (List.mem_append_left _ hleft)⟩
    · rcases List.mem_cons.mp hright with rfl | hright
      · exact .inl rfl
      · exact .inr ⟨List.mem_append_right _ (List.mem_cons_of_mem old hright),
          hother (List.mem_append_right _ hright)⟩
  · rw [hpush] at hmem
    rcases List.mem_append.mp hmem with hkept | hpushed
    · have hold := List.mem_of_mem_drop hkept
      exact .inr ⟨hold, hnew row hold⟩
    · exact .inl (List.mem_singleton.mp hpushed)

/-- The queue holds the identities with a row, each once, the table is bounded, and so is each
row. -/
structure Sound (recent : RecentConnects) : Prop where
  ordered : recent.entries.OrderedBy recent.order
  bounded : recent.entries.len ≤ recent.capacityKeys
  rows : ∀ key queue, recent.entries.get key = some queue → RowSound recent.perKey queue

theorem sound_new (capacityKeys perKey : ℕ) (hkeys : 0 < capacityKeys) (hper : 0 < perKey) :
    (new capacityKeys perKey hkeys hper).Sound := by
  refine ⟨FiniteMap.orderedBy_empty, Nat.zero_le _, fun key queue hget ↦ ?_⟩
  rw [new, FiniteMap.get_empty] at hget
  cases hget

/-- A record stores the pushed row of its identity. -/
theorem record_eq_store (recent : RecentConnects) (pid : UInt32) (startTicks : UInt64)
    (dest : RecentDest) :
    let stored := FiniteMap.store recent.capacityKeys recent.order recent.entries (pid, startTicks)
      (pushDest recent.perKey (recent.forProcess pid startTicks) dest)
    recent.record pid startTicks dest = { recent with order := stored.1, entries := stored.2 } := by
  intro stored
  have hstored := FiniteMap.update_eq_store recent.capacityKeys recent.order recent.entries
    (pid, startTicks) [] fun queue ↦ pushDest recent.perKey queue dest
  rw [show stored = _ from hstored.symm]
  rfl

/-- The row of an identity is sound. Assumes: the table is. -/
theorem rowSound_forProcess {recent : RecentConnects} (hsound : recent.Sound) (pid : UInt32)
    (startTicks : UInt64) : RowSound recent.perKey (recent.forProcess pid startTicks) := by
  unfold forProcess
  cases hget : recent.entries.get (pid, startTicks) with
  | none => exact ⟨Nat.zero_le _, List.nodup_nil⟩
  | some queue => exact hsound.rows _ queue hget

theorem sound_step {recent : RecentConnects} (hsound : recent.Sound) (record : RecentRecord) :
    (recent.step record).Sound := by
  have hrow := rowSound_pushDest recent.perKey_pos
    (rowSound_forProcess hsound record.pid record.startTicks) record.dest
  rw [step, record_eq_store]
  refine ⟨FiniteMap.orderedBy_store hsound.ordered hsound.bounded recent.capacityKeys_pos _ _,
    FiniteMap.len_store_le hsound.ordered hsound.bounded recent.capacityKeys_pos _ _,
    fun key queue hget ↦ ?_⟩
  by_cases hkey : key = (record.pid, record.startTicks)
  · subst hkey
    rw [FiniteMap.get_store_self] at hget
    rwa [← Option.some.inj hget]
  · exact hsound.rows key queue (FiniteMap.get_of_get_store hkey hget)

/-- A destination after a record is the recorded one, or was there and is another one. Assumes: the
invariant. -/
theorem mem_forProcess_step {recent : RecentConnects} (hsound : recent.Sound)
    {record : RecentRecord} {pid : UInt32} {startTicks : UInt64} {row : RecentDest}
    (hmem : row ∈ (recent.step record).forProcess pid startTicks) :
    record = ⟨pid, startTicks, row⟩ ∨
      (row ∈ recent.forProcess pid startTicks ∧ ¬ record.IsAbout pid startTicks row) := by
  by_cases hkey : (pid, startTicks) = (record.pid, record.startTicks)
  · obtain ⟨rfl, rfl⟩ := Prod.mk.inj hkey
    have hnodup := (rowSound_forProcess hsound record.pid record.startTicks).nodup
    rw [step, record_eq_store, forProcess, FiniteMap.get_store_self, Option.getD_some] at hmem
    rcases mem_pushDest hnodup hmem with rfl | ⟨hbefore, hother⟩
    · exact .inl rfl
    · exact .inr ⟨hbefore, fun hsame ↦ hother hsame.2.2.symm⟩
  · refine .inr ⟨?_, fun hsame ↦ hkey (by rw [hsame.1, hsame.2.1])⟩
    rw [step, record_eq_store, forProcess] at hmem
    dsimp only at hmem
    cases hget : (FiniteMap.store recent.capacityKeys recent.order recent.entries
        (record.pid, record.startTicks) (pushDest recent.perKey
          (recent.forProcess record.pid record.startTicks) record.dest)).2.get (pid, startTicks) with
    | none =>
      rw [hget, Option.getD_none] at hmem
      cases hmem
    | some queue =>
      rw [hget, Option.getD_some] at hmem
      rwa [forProcess, FiniteMap.get_of_get_store hkey hget, Option.getD_some]

/-- The last record about a destination of an identity is that of the row. -/
def LatestRecord (records : List RecentRecord) (pid : UInt32) (startTicks : UInt64)
    (row : RecentDest) : Prop :=
  ∃ index : ℕ, records[index]? = some ⟨pid, startTicks, row⟩ ∧
    ∀ (later : ℕ) (record : RecentRecord), index < later → records[later]? = some record →
      ¬ record.IsAbout pid startTicks row

/-- A destination of a run has the verdict of its latest record. -/
theorem latestRecord_of_mem {capacityKeys perKey : ℕ} {hkeys : 0 < capacityKeys}
    {hper : 0 < perKey} {records : List RecentRecord} {pid : UInt32} {startTicks : UInt64}
    {row : RecentDest}
    (hmem : row ∈ (records.foldl step (new capacityKeys perKey hkeys hper)).forProcess pid
      startTicks) : LatestRecord records pid startTicks row := by
  have hview : ∀ (recent : RecentConnects) (record : RecentRecord) (dest : RecentDest),
      recent.Sound →
      (if row ∈ (recent.step record).forProcess pid startTicks then some row else none) =
        some dest →
      record = ⟨pid, startTicks, row⟩ ∨
        ((if row ∈ recent.forProcess pid startTicks then some row else none) = some dest ∧
          ¬ record.IsAbout pid startTicks row) := by
    intro recent record dest hsound hdest
    split_ifs at hdest with hafter
    rcases mem_forProcess_step hsound hafter with hrecord | ⟨hbefore, hother⟩
    · exact .inl hrecord
    · rw [if_pos hbefore]
      exact .inr ⟨hdest, hother⟩
  rw [← stateAt_length] at hmem
  obtain ⟨index, -, ⟨record, hrecord, rfl⟩, -, hlast⟩ := exists_source_of_view step
    (new capacityKeys perKey hkeys hper) records Sound
    (fun recent ↦ if row ∈ recent.forProcess pid startTicks then some row else none)
    (sound_new capacityKeys perKey hkeys hper) (if_neg List.not_mem_nil)
    (fun _ record hsound ↦ sound_step hsound record) hview (if_pos hmem)
  refine ⟨index, hrecord, fun later record hlater hsome ↦ ?_⟩
  exact hlast later record hlater (List.getElem?_eq_some_iff.mp hsome).1 hsome

/-- The queue holds the identities with a row, each row is bounded and has no destination twice, and
each destination the verdict of its latest record. -/
structure Represented (capacityKeys perKey : ℕ) (records : List RecentRecord)
    (recent : RecentConnects) : Prop where
  tight : recent.entries.TightBy capacityKeys recent.order
  few : ∀ pid startTicks, (recent.forProcess pid startTicks).length ≤ perKey
  nodup : ∀ pid startTicks, ((recent.forProcess pid startTicks).map RecentDest.place).Nodup
  latest : ∀ pid startTicks, ∀ row ∈ recent.forProcess pid startTicks,
    LatestRecord records pid startTicks row

/-- The table after any records. -/
theorem represented_run {capacityKeys perKey : ℕ} (hkeys : 0 < capacityKeys) (hper : 0 < perKey)
    (records : List RecentRecord) :
    (records.foldl step (new capacityKeys perKey hkeys hper)).Represented capacityKeys perKey
      records := by
  have hrun : (records.foldl step (new capacityKeys perKey hkeys hper)).Sound ∧
      (records.foldl step (new capacityKeys perKey hkeys hper)).capacityKeys = capacityKeys ∧
      (records.foldl step (new capacityKeys perKey hkeys hper)).perKey = perKey :=
    List.foldlRecOn
      (motive := fun recent : RecentConnects ↦
        recent.Sound ∧ recent.capacityKeys = capacityKeys ∧ recent.perKey = perKey)
      records step ⟨sound_new capacityKeys perKey hkeys hper, rfl, rfl⟩
      fun recent hrecent record _ ↦ ⟨sound_step hrecent.1 record, hrecent.2⟩
  obtain ⟨hsound, hcapacity, hrow⟩ := hrun
  refine ⟨?_, fun pid startTicks ↦ ?_, fun pid startTicks ↦ ?_, fun pid startTicks row hmem ↦ ?_⟩
  · exact hsound.ordered.tightBy (hsound.bounded.trans_eq hcapacity) hkeys
  · exact (rowSound_forProcess hsound pid startTicks).few.trans_eq hrow
  · exact (rowSound_forProcess hsound pid startTicks).nodup
  · exact latestRecord_of_mem hmem

end RecentConnects

/-! ### Process identities -/

/-- The key under which an identity is cached. -/
def ProcessIdentity.key (identity : ProcessIdentity) : UInt32 × UInt64 :=
  (identity.pid, identity.startTicks)

namespace ProcessCache

/-- The queue holds the keys of the identities, each once, the cache is bounded, and each identity is
under its own key. -/
structure Sound (cache : ProcessCache) : Prop where
  ordered : cache.entries.OrderedBy cache.order
  bounded : cache.entries.len ≤ cache.capacity
  keyed : ∀ key identity, cache.entries.get key = some identity → identity.key = key

theorem sound_new (capacity : ℕ) (hcapacity : 0 < capacity) : (new capacity hcapacity).Sound := by
  refine ⟨FiniteMap.orderedBy_empty, Nat.zero_le _, fun key identity hget ↦ ?_⟩
  rw [new, FiniteMap.get_empty] at hget
  cases hget

/-- Caching a new identity stores it. Assumes: the invariant. -/
theorem insert_eq_store {cache : ProcessCache} (hsound : cache.Sound) {identity : ProcessIdentity}
    (hnew : cache.entries.get identity.key = none) :
    let stored := FiniteMap.store cache.capacity cache.order cache.entries identity.key identity
    cache.insert identity = { cache with order := stored.1, entries := stored.2 } := by
  intro stored
  have habsent : ¬ (cache.entries.get (identity.pid, identity.startTicks)).isSome := by
    rw [show cache.entries.get (identity.pid, identity.startTicks) = none from hnew]
    exact nofun
  unfold insert
  dsimp only
  rw [if_neg habsent]
  rcases FiniteMap.store_cases hsound.ordered hsound.bounded cache.capacity_pos identity.key
      identity with ⟨hbound, -⟩ | ⟨-, hroom, hstored⟩ | ⟨-, hfull, oldest, rest, horder, hstored⟩
  · exact absurd hbound habsent
  · rw [if_neg hroom.ne, show stored = _ from hstored]
    rfl
  · rw [if_pos hfull, horder, show stored = _ from hstored]
    rfl

theorem sound_insert {cache : ProcessCache} (hsound : cache.Sound) (identity : ProcessIdentity) :
    (cache.insert identity).Sound := by
  by_cases hknown : (cache.entries.get identity.key).isSome
  · have hkept : cache.insert identity = cache := if_pos hknown
    rwa [hkept]
  · rw [insert_eq_store hsound (Option.not_isSome_iff_eq_none.mp hknown)]
    refine ⟨FiniteMap.orderedBy_store hsound.ordered hsound.bounded cache.capacity_pos _ _,
      FiniteMap.len_store_le hsound.ordered hsound.bounded cache.capacity_pos _ _,
      fun key cached hget ↦ ?_⟩
    by_cases hkey : key = identity.key
    · subst hkey
      rw [FiniteMap.get_store_self] at hget
      rw [← Option.some.inj hget]
    · exact hsound.keyed key cached (FiniteMap.get_of_get_store hkey hget)

theorem capacity_insert (cache : ProcessCache) (identity : ProcessIdentity) :
    (cache.insert identity).capacity = cache.capacity := by
  unfold insert
  dsimp only
  split_ifs <;> rfl

/-- The queue holds the keys of the identities, a full cache has an oldest one, and the list has a
row for each identity. -/
structure Represented (capacity : ℕ) (cache : ProcessCache) : Prop where
  tight : cache.entries.TightBy capacity cache.order
  evicts : cache.entries.len = capacity → cache.order ≠ []
  listed : (cache.list.map ProcessIdentity.key).Perm cache.entries.keys

/-- The cache after any identities were cached. -/
theorem represented_run {capacity : ℕ} (hcapacity : 0 < capacity)
    (identities : List ProcessIdentity) :
    (identities.foldl insert (new capacity hcapacity)).Represented capacity := by
  have hrun : (identities.foldl insert (new capacity hcapacity)).Sound ∧
      (identities.foldl insert (new capacity hcapacity)).capacity = capacity :=
    List.foldlRecOn
      (motive := fun cache : ProcessCache ↦ cache.Sound ∧ cache.capacity = capacity)
      identities insert ⟨sound_new capacity hcapacity, rfl⟩
      fun cache hcache identity _ ↦
        ⟨sound_insert hcache.1 identity, (cache.capacity_insert identity).trans hcache.2⟩
  generalize identities.foldl insert (new capacity hcapacity) = cache at hrun ⊢
  obtain ⟨hsound, rfl⟩ := hrun
  refine ⟨hsound.ordered.tightBy hsound.bounded hcapacity, fun hfull hempty ↦ ?_, ?_⟩
  · have hlen := hsound.ordered.len_eq
    rw [hempty, List.length_nil] at hlen
    omega
  · have hlist : cache.list =
        cache.order.filterMap fun key ↦ (cache.entries.get key).map fun identity ↦ identity :=
      List.filterMap_congr fun key _ ↦ Option.map_id'.symm
    have hkeys : cache.list.map ProcessIdentity.key = cache.order := by
      rw [hlist]
      exact hsound.ordered.map_filterMap hsound.keyed
    rw [hkeys]
    exact hsound.ordered.perm_keys

end ProcessCache

/-! ### Statistics -/

/-- The queue holds the keys of the counters, and the list has a row for each. -/
structure StatsDimension.Represented {κ : Type} [DecidableEq κ] (dimension : StatsDimension κ) :
    Prop where
  tight : dimension.counters.TightBy maxStatsKeys dimension.order
  listed : (dimension.snapshot.map Prod.fst).Perm dimension.counters.keys

theorem StatsDimension.represented_of_bounded {κ : Type} [DecidableEq κ]
    {dimension : StatsDimension κ} (hbounded : dimension.Bounded) : dimension.Represented where
  tight := hbounded.ordered.tightBy hbounded.few (by decide)
  listed := by
    have hkeys : dimension.snapshot.map Prod.fst = dimension.order.reverse := by
      rw [snapshot_eq hbounded, List.map_map]
      exact List.map_id' _
    rw [hkeys]
    exact (List.reverse_perm _).trans hbounded.ordered.perm_keys

theorem decimal_injective : Function.Injective decimal := by
  intro first second heq
  have hdigits : Nat.toDigits 10 first = Nat.toDigits 10 second := by
    have hlists := congrArg String.toList heq
    rwa [decimal, decimal, Nat.toString_eq_repr, Nat.toString_eq_repr, Nat.toList_repr,
      Nat.toList_repr] at hlists
  have hvalues := congrArg Text.parseDigits hdigits
  rw [Text.parseDigits_toDigits, Text.parseDigits_toDigits] at hvalues
  exact Option.some.inj hvalues

namespace StatsStore

/-- The five dimensions, and the texts under which ports and users are shown. -/
structure Represented (store : StatsStore) : Prop where
  hosts : store.hosts.Represented
  procs : store.procs.Represented
  addrs : store.addrs.Represented
  ports : store.ports.Represented
  users : store.users.Represented
  portTexts : (store.ports.snapshot.map fun row ↦ decimal row.1.toNat).Nodup
  userTexts : (store.users.snapshot.map fun row ↦ decimal row.1.toNat).Nodup

/-- Every dimension is bounded. -/
structure Bounded (store : StatsStore) : Prop where
  hosts : store.hosts.Bounded
  procs : store.procs.Bounded
  addrs : store.addrs.Bounded
  ports : store.ports.Bounded
  users : store.users.Bounded

theorem bounded_after (ops : List StatsOp) : (after ops).Bounded := by
  unfold after
  refine List.foldlRecOn (motive := Bounded) ops StatsOp.step ?_ fun store hstore op _ ↦ ?_
  · exact ⟨StatsDimension.bounded_empty, StatsDimension.bounded_empty,
      StatsDimension.bounded_empty, StatsDimension.bounded_empty, StatsDimension.bounded_empty⟩
  · cases op with
    | record hit =>
      exact ⟨StatsDimension.bounded_bump hstore.hosts _ _,
        StatsDimension.bounded_bump hstore.procs _ _, StatsDimension.bounded_bump hstore.addrs _ _,
        StatsDimension.bounded_bump hstore.ports _ _, StatsDimension.bounded_bump hstore.users _ _⟩
    | recordUnattributedDeny =>
      exact ⟨hstore.hosts, hstore.procs, hstore.addrs, hstore.ports, hstore.users⟩

/-- The texts of distinct keys are distinct. -/
theorem nodup_texts {κ : Type} [DecidableEq κ] {dimension : StatsDimension κ}
    (hrepresented : dimension.Represented) {number : κ → ℕ} (hnumber : Function.Injective number) :
    (dimension.snapshot.map fun row ↦ decimal (number row.1)).Nodup := by
  have hkeys : (dimension.snapshot.map Prod.fst).Nodup :=
    hrepresented.listed.nodup_iff.mpr dimension.counters.nodup_keys
  have htexts := hkeys.map (decimal_injective.comp hnumber)
  rwa [List.map_map] at htexts

/-- The statistics after any calls. -/
theorem represented_after (ops : List StatsOp) : (after ops).Represented := by
  have hbounded := bounded_after ops
  have hports := StatsDimension.represented_of_bounded hbounded.ports
  have husers := StatsDimension.represented_of_bounded hbounded.users
  exact ⟨StatsDimension.represented_of_bounded hbounded.hosts,
    StatsDimension.represented_of_bounded hbounded.procs,
    StatsDimension.represented_of_bounded hbounded.addrs, hports, husers,
    nodup_texts hports fun _ _ ↦ UInt16.toNat_inj.mp,
    nodup_texts husers fun _ _ ↦ UInt32.toNat_inj.mp⟩

end StatsStore

/-! ### The five maps -/

/-- For every positive capacity and every sequence of operations from an empty map: no map holds more
keys than its capacity, its queue holds every key and none twice, and after an expiry no other key;
no queue runs out while room is made; every list has one row for each key; and a row of recent
destinations is bounded, has no destination twice, and each with its latest verdict. -/
theorem bounded_maps_represented {capacity perKey : ℕ} (hcapacity : 0 < capacity)
    (hper : 0 < perKey) (ttl : Duration) (pendingOps : List PendingOp) (dnsOps : List DnsOp)
    (records : List RecentRecord) (identities : List ProcessIdentity) (statsOps : List StatsOp) :
    (pendingOps.foldl PendingTable.step (.new capacity hcapacity ttl)).Represented capacity ∧
    (dnsOps.foldl DnsCache.step (.new capacity hcapacity ttl)).Represented capacity ∧
    (records.foldl RecentConnects.step (.new capacity perKey hcapacity hper)).Represented capacity
      perKey records ∧
    (identities.foldl ProcessCache.insert (.new capacity hcapacity)).Represented capacity ∧
    (StatsStore.after statsOps).Represented :=
  ⟨PendingTable.represented_run hcapacity ttl pendingOps,
    DnsCache.represented_run hcapacity ttl dnsOps,
    RecentConnects.represented_run hcapacity hper records,
    ProcessCache.represented_run hcapacity identities, StatsStore.represented_after statsOps⟩

/-- Maps with room for one key, in which the second key of a run takes the place of the first. -/
theorem maps_of_one_key_represented :
    0 < 1 ∧
    ([.insert 0 0 ⟨1, 80⟩ .accept, .insert 1 1 ⟨2, 80⟩ .drop, .take 2 ⟨2, 80⟩].foldl
      PendingTable.step (.new 1 Nat.one_pos 5)).Represented 1 ∧
    ([.observe 0 0 "a.example" 1 none, .listFresh 1 1, .observe 2 2 "b.example" 2 none].foldl
      DnsCache.step (.new 1 Nat.one_pos 5)).Represented 1 ∧
    ([⟨7, 1, ⟨⟨10, 0, 0, 1⟩, 80, "deny"⟩⟩, ⟨7, 1, ⟨⟨10, 0, 0, 1⟩, 80, "allow"⟩⟩].foldl
      RecentConnects.step (.new 1 1 Nat.one_pos Nat.one_pos)).Represented 1 1
        [⟨7, 1, ⟨⟨10, 0, 0, 1⟩, 80, "deny"⟩⟩, ⟨7, 1, ⟨⟨10, 0, 0, 1⟩, 80, "allow"⟩⟩] ∧
    ([⟨7, 1, "/bin/a", [], 0, ""⟩, ⟨8, 1, "/bin/b", [], 0, ""⟩].foldl ProcessCache.insert
      (.new 1 Nat.one_pos)).Represented 1 ∧
    (StatsStore.after [.record ⟨"/bin/a", "a.example", "10.0.0.1", 80, 0, "allow"⟩]).Represented :=
  ⟨Nat.one_pos, bounded_maps_represented Nat.one_pos Nat.one_pos 5 _ _ _ _ _⟩

end InterFire
