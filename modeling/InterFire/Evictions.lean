import InterFire.Dns
import InterFire.Library.TimedTable
import InterFire.PendingRuns

/-!
# Evictions

The pending table and the name cache are timed tables: a new key joins the queue at the back, an
entry that is stored again keeps the place of its key, and the key at the front leaves when room is
needed. An evicted entry is therefore the one that was brought in first (`evicts_first_in`), which
need not be the least recent one: `refreshed_evicted` refreshes an entry and loses it to the next
new key, while an older one stays.
-/

set_option autoImplicit false
set_option relaxedAutoImplicit false

namespace InterFire

open Run (ClockForward stateAt)

/-! ### The pending table -/

namespace PendingTable

/-- The key that an operation stores, with its stamp. -/
def stored (_ : PendingTable) : PendingOp → Option (DestKey × Instant)
  | .insert _ stampNow key _ => some (key, stampNow)
  | .take _ _ => none

/-- The entry of a key is live when an insertion comes to make room. -/
def Live (table : PendingTable) : PendingOp → DestKey → Prop
  | .insert expireNow _ _ _, key => ((table.expire expireNow).entries.get key).isSome
  | .take _ _, _ => False

/-- The queue when an insertion comes to make room. -/
def liveQueue (table : PendingTable) : PendingOp → List DestKey
  | .insert expireNow _ _ _ => (table.expire expireNow).order
  | .take _ _ => []

theorem stored_of_arrives (table : PendingTable) (op : PendingOp) (key : DestKey)
    (harrives : table.arrives op = some key) :
    ∃ stamp, table.stored op = some (key, stamp) ∧ stamp ∈ op.readings := by
  obtain ⟨expireNow, stampNow, verdict, rfl, -⟩ := (table.arrives_eq_some_iff op key).mp harrives
  exact ⟨stampNow, rfl, by simp [PendingOp.readings]⟩

theorem order_expire_sublist {table : PendingTable} (hsound : table.Sound) (now : Instant) :
    (table.expire now).order.Sublist table.order := by
  rw [order_expire hsound]
  exact List.filter_sublist

/-- An operation keeps a part of the queue, and an arriving key joins at the back. Assumes: the
invariant. -/
theorem order_step (table : PendingTable) (op : PendingOp) (hsound : table.Sound) :
    ∃ kept, kept.Sublist table.order ∧
      (table.step op).order = kept ++ (table.arrives op).toList ∧
      ∀ key, table.arrives op = some key → key ∉ kept := by
  cases op with
  | take now taken =>
    refine ⟨(table.expire now).order, order_expire_sublist hsound now, ?_, ?_⟩
    · exact (List.append_nil _).symm
    · rintro key ⟨⟩
  | insert expireNow stampNow inserted verdict =>
    have hbounded := (len_expire_le table expireNow).trans hsound.bounded
    obtain ⟨kept, hkept, horder, hnew⟩ := FiniteMap.order_store
      (orderedBy_expire hsound expireNow) hbounded table.capacity_pos inserted
      (⟨verdict, stampNow⟩ : PendingEntry)
    refine ⟨kept, hkept.trans (order_expire_sublist hsound expireNow), ?_, hnew⟩
    change (table.insert expireNow stampNow inserted verdict).order = _
    rw [insert_eq_store]
    exact horder

theorem liveQueue_sublist (table : PendingTable) (op : PendingOp) (hsound : table.Sound) :
    (table.liveQueue op).Sublist table.order := by
  cases op with
  | insert expireNow _ _ _ => exact order_expire_sublist hsound expireNow
  | take _ _ => exact List.nil_sublist _

theorem mem_liveQueue (table : PendingTable) (op : PendingOp) (key : DestKey)
    (hsound : table.Sound) (hlive : table.Live op key) : key ∈ table.liveQueue op := by
  cases op with
  | insert expireNow _ _ _ => exact ((orderedBy_expire hsound expireNow).mem_iff key).mpr hlive
  | take _ _ => exact hlive.elim

/-- A live entry that an insertion evicts is that of the key at the front. Assumes: the
invariant. -/
theorem front_of_evicted (table : PendingTable) (op : PendingOp) (key : DestKey)
    (hsound : table.Sound) (hlive : table.Live op key)
    (hgone : ¬ ((table.step op).entries.get key).isSome) :
    ∃ rest, table.liveQueue op = key :: rest := by
  cases op with
  | take _ _ => exact hlive.elim
  | insert expireNow stampNow inserted verdict =>
    have hbounded := (len_expire_le table expireNow).trans hsound.bounded
    change ¬ ((table.insert expireNow stampNow inserted verdict).entries.get key).isSome at hgone
    rw [insert_eq_store, Option.not_isSome_iff_eq_none] at hgone
    exact FiniteMap.front_of_lost (orderedBy_expire hsound expireNow) hbounded table.capacity_pos
      hlive hgone

/-- The pending table as a timed table. -/
def timed : TimedTable PendingTable PendingOp DestKey Instant where
  step := step
  readings := PendingOp.readings
  stored := stored
  arrives := arrives
  live := Live
  holds table key := (table.entries.get key).isSome
  sound := Sound
  queue := order
  liveQueue := liveQueue
  sound_step _ op hsound := sound_step hsound op
  stored_of_arrives := stored_of_arrives
  queue_step := order_step
  liveQueue_sublist := liveQueue_sublist
  mem_liveQueue := mem_liveQueue
  front_of_evicted := front_of_evicted

end PendingTable

/-! ### The name cache -/

/-- An operation of the name cache, with its readings of the clock. -/
inductive DnsOp
  | observe (expireNow stampNow : Instant) (hostname : String) (ipv4 : UInt32)
      (ttl : Option Duration)
  | hostnameFor (now : Instant) (ipv4 : UInt32)
  | listFresh (expireNow now : Instant)
  deriving DecidableEq, Repr

/-- The readings of an operation, in their order. -/
def DnsOp.readings : DnsOp → List Instant
  | .observe expireNow stampNow _ _ _ => [expireNow, stampNow]
  | .hostnameFor now _ => [now]
  | .listFresh expireNow now => [expireNow, now]

/-- The first reading of an operation, at which it expires the names. -/
def DnsOp.expireNow : DnsOp → Instant
  | .observe expireNow _ _ _ _ => expireNow
  | .hostnameFor now _ => now
  | .listFresh expireNow _ => expireNow

namespace DnsCache

/-- A note that panics has expired the names before. -/
def step (cache : DnsCache) : DnsOp → DnsCache
  | .observe expireNow stampNow hostname ipv4 ttl =>
    (cache.observe expireNow stampNow hostname ipv4 ttl).getD (cache.expire expireNow)
  | .hostnameFor now ipv4 => (cache.hostnameFor now ipv4).1
  | .listFresh expireNow now => (cache.listFresh expireNow now).1

/-- The queue holds the addresses with a name, each once, and the cache is bounded. -/
structure Sound (cache : DnsCache) : Prop where
  ordered : cache.byIp.OrderedBy cache.order
  bounded : cache.byIp.len ≤ cache.capacity

theorem sound_new (capacity : ℕ) (hcapacity : 0 < capacity) (defaultTtl : Duration) :
    (new capacity hcapacity defaultTtl).Sound :=
  ⟨FiniteMap.orderedBy_empty, Nat.zero_le _⟩

theorem order_expire_sublist (cache : DnsCache) (now : Instant) :
    (cache.expire now).order.Sublist cache.order := List.filter_sublist

theorem sound_expire {cache : DnsCache} (hsound : cache.Sound) (now : Instant) :
    (cache.expire now).Sound := by
  have hordered : (cache.expire now).byIp.OrderedBy (cache.expire now).order := by
    refine FiniteMap.orderedBy_filter hsound.ordered.nodup fun ipv4 hsome ↦ ?_
    obtain ⟨entry, hget⟩ := Option.isSome_iff_exists.mp hsome
    change (cache.byIp.retain _).get ipv4 = some entry at hget
    rw [FiniteMap.get_retain, Option.filter_eq_some_iff] at hget
    rw [hsound.ordered.mem_iff, hget.1]
    rfl
  refine ⟨hordered, ?_⟩
  rw [hordered.len_eq]
  calc (cache.expire now).order.length ≤ cache.order.length :=
        (cache.order_expire_sublist now).length_le
    _ = cache.byIp.len := hsound.ordered.len_eq.symm
    _ ≤ cache.capacity := hsound.bounded

/-- An observation that returns stores an entry in the live cache. Assumes: it returns. -/
theorem observe_eq_store {cache after : DnsCache} {expireNow stampNow : Instant}
    {hostname : String} {ipv4 : UInt32} {ttl : Option Duration}
    (hobserve : cache.observe expireNow stampNow hostname ipv4 ttl = some after) :
    ∃ entry, after = { cache.expire expireNow with
      order := (FiniteMap.store cache.capacity (cache.expire expireNow).order
        (cache.expire expireNow).byIp ipv4 entry).1
      byIp := (FiniteMap.store cache.capacity (cache.expire expireNow).order
        (cache.expire expireNow).byIp ipv4 entry).2 } := by
  unfold observe at hobserve
  simp only [Option.bind_eq_bind, Option.bind_eq_some_iff] at hobserve
  obtain ⟨expiresAt, -, hresult⟩ := hobserve
  refine ⟨{ hostname := Text.toAsciiLowercase hostname, expiresAt }, ?_⟩
  unfold FiniteMap.store
  split_ifs at hresult ⊢ <;> exact (Option.some.inj hresult).symm

theorem sound_step (cache : DnsCache) (op : DnsOp) (hsound : cache.Sound) :
    (cache.step op).Sound := by
  cases op with
  | hostnameFor now ipv4 => exact sound_expire hsound now
  | listFresh expireNow now => exact sound_expire hsound expireNow
  | observe expireNow stampNow hostname ipv4 ttl =>
    have hlive := sound_expire hsound expireNow
    cases hobserve : cache.observe expireNow stampNow hostname ipv4 ttl with
    | none => simpa [step, hobserve] using hlive
    | some after =>
      have hstep : cache.step (.observe expireNow stampNow hostname ipv4 ttl) = after := by
        simp [step, hobserve]
      obtain ⟨entry, hafter⟩ := observe_eq_store hobserve
      rw [hstep, hafter]
      exact ⟨FiniteMap.orderedBy_store hlive.ordered hlive.bounded cache.capacity_pos ipv4 entry,
        FiniteMap.len_store_le hlive.ordered hlive.bounded cache.capacity_pos ipv4 entry⟩

/-- The address that an operation names, with the stamp of its entry. -/
def stored (cache : DnsCache) : DnsOp → Option (UInt32 × Instant)
  | .observe expireNow stampNow hostname ipv4 ttl =>
    (cache.observe expireNow stampNow hostname ipv4 ttl).map fun _ ↦ (ipv4, stampNow)
  | .hostnameFor _ _ => none
  | .listFresh _ _ => none

/-- The address that an operation brings into the cache: the named one, when it is absent after the
expiry. -/
def arrives (cache : DnsCache) : DnsOp → Option UInt32
  | .observe expireNow stampNow hostname ipv4 ttl =>
    (cache.observe expireNow stampNow hostname ipv4 ttl).bind fun _ ↦
      (cache.expire expireNow).byIp.newKey ipv4
  | .hostnameFor _ _ => none
  | .listFresh _ _ => none

/-- The name of an address is live when an observation comes to make room. -/
def Live (cache : DnsCache) : DnsOp → UInt32 → Prop
  | .observe expireNow _ _ _ _, ipv4 => ((cache.expire expireNow).byIp.get ipv4).isSome
  | .hostnameFor _ _, _ => False
  | .listFresh _ _, _ => False

/-- The queue when an operation has expired the names. -/
def liveQueue (cache : DnsCache) (op : DnsOp) : List UInt32 := (cache.expire op.expireNow).order

theorem stored_of_arrives (cache : DnsCache) (op : DnsOp) (ipv4 : UInt32)
    (harrives : cache.arrives op = some ipv4) :
    ∃ stamp, cache.stored op = some (ipv4, stamp) ∧ stamp ∈ op.readings := by
  cases op with
  | hostnameFor _ _ => cases harrives
  | listFresh _ _ => cases harrives
  | observe expireNow stampNow hostname named ttl =>
    obtain ⟨after, hobserve, hnew⟩ := Option.bind_eq_some_iff.mp harrives
    obtain ⟨rfl, -⟩ := (FiniteMap.newKey_eq_some_iff _ named ipv4).mp hnew
    refine ⟨stampNow, ?_, by simp [DnsOp.readings]⟩
    rw [stored, hobserve, Option.map_some]

/-- An operation keeps a part of the queue, and an arriving address joins at the back. Assumes: the
invariant. -/
theorem order_step (cache : DnsCache) (op : DnsOp) (hsound : cache.Sound) :
    ∃ kept, kept.Sublist cache.order ∧
      (cache.step op).order = kept ++ (cache.arrives op).toList ∧
      ∀ ipv4, cache.arrives op = some ipv4 → ipv4 ∉ kept := by
  have hsublist := cache.order_expire_sublist op.expireNow
  cases op with
  | hostnameFor now _ =>
    refine ⟨_, hsublist, (List.append_nil _).symm, ?_⟩
    rintro ipv4 ⟨⟩
  | listFresh expireNow now =>
    refine ⟨_, hsublist, (List.append_nil _).symm, ?_⟩
    rintro ipv4 ⟨⟩
  | observe expireNow stampNow hostname ipv4 ttl =>
    have hlive := sound_expire hsound expireNow
    cases hobserve : cache.observe expireNow stampNow hostname ipv4 ttl with
    | none =>
      refine ⟨_, hsublist, ?_, fun other hother ↦ ?_⟩
      · simp [step, arrives, hobserve, DnsOp.expireNow]
      · rw [arrives, hobserve] at hother
        cases hother
    | some after =>
      obtain ⟨entry, hafter⟩ := observe_eq_store hobserve
      obtain ⟨kept, hkept, horder, hnew⟩ := FiniteMap.order_store hlive.ordered hlive.bounded
        cache.capacity_pos ipv4 entry
      refine ⟨kept, hkept.trans hsublist, ?_, fun other hother ↦ hnew other ?_⟩
      · rw [step, arrives, hobserve, Option.getD_some, Option.bind_some, hafter]
        exact horder
      · rwa [arrives, hobserve, Option.bind_some] at hother

theorem liveQueue_sublist (cache : DnsCache) (op : DnsOp) (_ : cache.Sound) :
    (cache.liveQueue op).Sublist cache.order := cache.order_expire_sublist op.expireNow

theorem mem_liveQueue (cache : DnsCache) (op : DnsOp) (ipv4 : UInt32) (hsound : cache.Sound)
    (hlive : cache.Live op ipv4) : ipv4 ∈ cache.liveQueue op := by
  cases op with
  | hostnameFor _ _ => exact hlive.elim
  | listFresh _ _ => exact hlive.elim
  | observe expireNow _ _ _ _ =>
    exact ((sound_expire hsound expireNow).ordered.mem_iff ipv4).mpr hlive

/-- A live name that an observation evicts is that of the address at the front. Assumes: the
invariant. -/
theorem front_of_evicted (cache : DnsCache) (op : DnsOp) (ipv4 : UInt32) (hsound : cache.Sound)
    (hlive : cache.Live op ipv4) (hgone : ¬ ((cache.step op).byIp.get ipv4).isSome) :
    ∃ rest, cache.liveQueue op = ipv4 :: rest := by
  cases op with
  | hostnameFor _ _ => exact hlive.elim
  | listFresh _ _ => exact hlive.elim
  | observe expireNow stampNow hostname named ttl =>
    have hafter := sound_expire hsound expireNow
    cases hobserve : cache.observe expireNow stampNow hostname named ttl with
    | none =>
      rw [step, hobserve, Option.getD_none] at hgone
      exact absurd hlive hgone
    | some after =>
      obtain ⟨entry, hstore⟩ := observe_eq_store hobserve
      rw [step, hobserve, Option.getD_some, hstore, Option.not_isSome_iff_eq_none] at hgone
      exact FiniteMap.front_of_lost hafter.ordered hafter.bounded cache.capacity_pos hlive hgone

/-- The name cache as a timed table. -/
def timed : TimedTable DnsCache DnsOp UInt32 Instant where
  step := step
  readings := DnsOp.readings
  stored := stored
  arrives := arrives
  live := Live
  holds cache ipv4 := (cache.byIp.get ipv4).isSome
  sound := Sound
  queue := order
  liveQueue := liveQueue
  sound_step := sound_step
  stored_of_arrives := stored_of_arrives
  queue_step := order_step
  liveQueue_sublist := liveQueue_sublist
  mem_liveQueue := mem_liveQueue
  front_of_evicted := front_of_evicted

end DnsCache

/-! ### What an eviction takes -/

/-- In every run of the pending table and of the name cache, an evicted entry was brought in before
every other live one. Assumes: clocks that do not go back. -/
theorem evicts_first_in (capacity : ℕ) (hcapacity : 0 < capacity) (ttl : Duration)
    {pendingOps : List PendingOp} (hpending : ClockForward PendingOp.readings pendingOps)
    {dnsOps : List DnsOp} (hdns : ClockForward DnsOp.readings dnsOps) :
    PendingTable.timed.EvictsFirstIn (.new capacity hcapacity ttl) pendingOps ∧
    DnsCache.timed.EvictsFirstIn (.new capacity hcapacity ttl) dnsOps :=
  ⟨PendingTable.timed.evictsFirstIn_of_clockForward
      (PendingTable.sound_new capacity hcapacity ttl) rfl hpending,
    DnsCache.timed.evictsFirstIn_of_clockForward
      (DnsCache.sound_new capacity hcapacity ttl) rfl hdns⟩

/-- Two destinations are stored, the first one again, and then a third. -/
def refreshedPending : List PendingOp :=
  [.insert 0 0 ⟨1, 443⟩ .accept, .insert 1 1 ⟨2, 443⟩ .accept, .insert 2 2 ⟨1, 443⟩ .drop,
    .insert 3 3 ⟨3, 443⟩ .accept]

/-- Two addresses are named, the first one again, and then a third. -/
def refreshedNames : List DnsOp :=
  [.observe 0 0 "a.example" 1 none, .observe 1 1 "b.example" 2 none,
    .observe 2 2 "a.example" 1 none, .observe 3 3 "c.example" 3 none]

theorem first_in_evicted :
    PendingTable.timed.EvictsFirstIn (.new 2 two_pos 10) refreshedPending ∧
    DnsCache.timed.EvictsFirstIn (.new 2 two_pos 10) refreshedNames :=
  evicts_first_in 2 two_pos 10 (by decide) (by decide)

/-- The entry that was refreshed last is evicted, and the older one stays. -/
theorem refreshed_evicted :
    (ClockForward PendingOp.readings refreshedPending ∧
      ¬ PendingTable.timed.EvictsLeastRecent (.new 2 two_pos 10) refreshedPending) ∧
    (ClockForward DnsOp.readings refreshedNames ∧
      ¬ DnsCache.timed.EvictsLeastRecent (.new 2 two_pos 10) refreshedNames) := by
  refine ⟨⟨by decide, fun hleast ↦ ?_⟩, by decide, fun hleast ↦ ?_⟩
  · have hevicted : PendingTable.timed.EvictedAt (.new 2 two_pos 10) refreshedPending 3
        (.insert 3 3 ⟨3, 443⟩ .accept) ⟨1, 443⟩ := ⟨rfl, rfl, Bool.false_ne_true⟩
    have hrecent : PendingTable.timed.LastStored (.new 2 two_pos 10) refreshedPending 3
        ⟨1, 443⟩ 2 :=
      ⟨2, by decide, ⟨_, rfl, rfl⟩, fun between _ hafter hbefore ↦ by omega⟩
    have holder : PendingTable.timed.LastStored (.new 2 two_pos 10) refreshedPending 3
        ⟨2, 443⟩ 1 := by
      refine ⟨1, by decide, ⟨_, rfl, rfl⟩, ?_⟩
      rintro between later hafter hbefore ⟨op, hop, hstored⟩
      obtain rfl : between = 2 := by omega
      obtain rfl := Option.some.inj hop
      cases hstored
    have hle := hleast 3 _ _ ⟨2, 443⟩ _ _ hevicted rfl hrecent holder
    exact absurd hle (by decide)
  · have hevicted : DnsCache.timed.EvictedAt (.new 2 two_pos 10) refreshedNames 3
        (.observe 3 3 "c.example" 3 none) 1 := ⟨rfl, rfl, Bool.false_ne_true⟩
    have hrecent : DnsCache.timed.LastStored (.new 2 two_pos 10) refreshedNames 3 1 2 :=
      ⟨2, by decide, ⟨_, rfl, rfl⟩, fun between _ hafter hbefore ↦ by omega⟩
    have holder : DnsCache.timed.LastStored (.new 2 two_pos 10) refreshedNames 3 2 1 := by
      refine ⟨1, by decide, ⟨_, rfl, rfl⟩, ?_⟩
      rintro between later hafter hbefore ⟨op, hop, hstored⟩
      obtain rfl : between = 2 := by omega
      obtain rfl := Option.some.inj hop
      cases hstored
    have hle := hleast 3 _ _ 2 _ _ hevicted rfl hrecent holder
    exact absurd hle (by decide)

end InterFire
