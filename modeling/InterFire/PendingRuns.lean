import InterFire.Library.Arrivals
import InterFire.Library.Run
import InterFire.Pending

/-!
# Runs of the pending table

A run of insertions and takes under a clock that does not go back. `Sound` is the invariant of the
table: the order queue holds each key once and every key with an entry, and the table is within its
capacity. After an expiry the queue holds exactly the keys with an entry (`orderedBy_expire`), so an
insertion evicts at most one of them, the one at the front (`insert_cases`).

The entry of a key is that of its latest insertion, and no take of the key came after it
(`latest_of_get`). A key leaves the table by a take, by age, or at the front of a full table, and it
is not at the front before as many other keys came after it as the table can hold besides it
(`Behind`). `single_use_timed_map` puts both together.
-/

set_option autoImplicit false
set_option relaxedAutoImplicit false

namespace InterFire

open Run (ClockForward)

/-- An operation of the pending table, with its readings of the clock. -/
inductive PendingOp
  | insert (expireNow stampNow : Instant) (key : DestKey) (verdict : PacketVerdict)
  | take (now : Instant) (key : DestKey)
  deriving DecidableEq, Repr

/-- The readings of an operation, in their order. -/
def PendingOp.readings : PendingOp → List Instant
  | .insert expireNow stampNow _ _ => [expireNow, stampNow]
  | .take now _ => [now]

/-- The key of an operation. -/
def PendingOp.key : PendingOp → DestKey
  | .insert _ _ key _ => key
  | .take _ key => key

/-- The key that an operation inserts. -/
def PendingOp.insertedKey : PendingOp → Option DestKey
  | .insert _ _ key _ => some key
  | .take _ _ => none

namespace PendingTable

def step (table : PendingTable) : PendingOp → PendingTable
  | .insert expireNow stampNow key verdict => table.insert expireNow stampNow key verdict
  | .take now key => (table.take now key).1

/-- The key that an operation brings into the table: the inserted one, when it is absent after the
expiry. -/
def arrives (table : PendingTable) : PendingOp → Option DestKey
  | .insert expireNow _ key _ => (table.expire expireNow).entries.newKey key
  | .take _ _ => none

/-- An arriving key is inserted while it is absent. -/
theorem arrives_eq_some_iff (table : PendingTable) (op : PendingOp) (key : DestKey) :
    table.arrives op = some key ↔ ∃ expireNow stampNow verdict,
      op = .insert expireNow stampNow key verdict ∧
      (table.expire expireNow).entries.get key = none := by
  cases op with
  | take now taken => simp [arrives]
  | insert expireNow stampNow inserted verdict =>
    rw [arrives, FiniteMap.newKey_eq_some_iff]
    constructor
    · rintro ⟨rfl, hnone⟩
      exact ⟨expireNow, stampNow, verdict, rfl, hnone⟩
    · rintro ⟨_, _, _, heq, hnone⟩
      obtain ⟨rfl, -, rfl, -⟩ := PendingOp.insert.inj heq
      exact ⟨rfl, hnone⟩

/-! ### The invariant -/

/-- The queue holds each key once and every key with an entry, and the table is bounded. -/
structure Sound (table : PendingTable) : Prop where
  nodup : table.order.Nodup
  covered : ∀ key, (table.entries.get key).isSome → key ∈ table.order
  bounded : table.entries.len ≤ table.capacity

theorem sound_new (capacity : ℕ) (hcapacity : 0 < capacity) (ttl : Duration) :
    (new capacity hcapacity ttl).Sound := by
  refine ⟨List.nodup_nil, fun key hkey ↦ ?_, Nat.zero_le _⟩
  rw [new, FiniteMap.get_empty] at hkey
  cases hkey

/-- The entry is fresh at an instant. -/
def Fresh (ttl : Duration) (now : Instant) (entry : PendingEntry) : Bool :=
  now - entry.insertedAt ≤ ttl

/-- Assumes: the entry is stale. -/
theorem filter_of_stale {ttl : Duration} {now : Instant} {entry : PendingEntry}
    (hstale : ttl < now - entry.insertedAt) : (some entry).filter (Fresh ttl now) = none := by
  rw [Option.filter_some, if_neg]
  simpa only [Fresh, decide_eq_true_eq, not_le] using hstale

/-- Assumes: the entry is fresh. -/
theorem filter_of_fresh {ttl : Duration} {now : Instant} {entry : PendingEntry}
    (hfresh : now - entry.insertedAt ≤ ttl) :
    (some entry).filter (Fresh ttl now) = some entry := by
  rw [Option.filter_some, if_pos]
  simpa [Fresh] using hfresh

/-- What the walk along the queue keeps: the fresh entries of the keys in the queue, and the entries
of the others. Assumes: the queue holds each key once. -/
theorem get_retainFresh (now : Instant) (ttl : Duration) {order : List DestKey}
    (hnodup : order.Nodup) (entries : FiniteMap DestKey PendingEntry) (key : DestKey) :
    (retainFresh now ttl order entries).2.get key =
      if key ∈ order then (entries.get key).filter (Fresh ttl now) else entries.get key := by
  induction order generalizing entries with
  | nil => rfl
  | cons first rest ih =>
    obtain ⟨hfirst, hrest⟩ := List.nodup_cons.mp hnodup
    unfold retainFresh
    split
    · next hnone =>
      rw [ih hrest]
      by_cases hkey : key = first
      · subst hkey
        simp [hfirst, hnone]
      · simp [hkey]
    · next entry hentry =>
      by_cases hstale : ttl < now - entry.insertedAt
      · rw [if_pos hstale, ih hrest]
        by_cases hkey : key = first
        · subst hkey
          simp [hfirst, hentry, filter_of_stale hstale]
        · simp [hkey, FiniteMap.get_remove_of_ne _ hkey]
      · rw [if_neg hstale]
        change (retainFresh now ttl rest entries).2.get key = _
        rw [ih hrest]
        by_cases hkey : key = first
        · subst hkey
          simp [hfirst, hentry, filter_of_fresh (not_lt.mp hstale)]
        · simp [hkey]

/-- What the walk along the queue leaves of it: the keys that keep an entry. Assumes: it holds each
key once. -/
theorem order_retainFresh (now : Instant) (ttl : Duration) {order : List DestKey}
    (hnodup : order.Nodup) (entries : FiniteMap DestKey PendingEntry) :
    (retainFresh now ttl order entries).1 =
      order.filter fun key ↦ ((entries.get key).filter (Fresh ttl now)).isSome := by
  induction order generalizing entries with
  | nil => rfl
  | cons first rest ih =>
    obtain ⟨hfirst, hrest⟩ := List.nodup_cons.mp hnodup
    unfold retainFresh
    split
    · next hnone =>
      rw [ih hrest, List.filter_cons_of_neg (by simp [hnone])]
    · next entry hentry =>
      by_cases hstale : ttl < now - entry.insertedAt
      · rw [if_pos hstale, ih hrest,
          List.filter_cons_of_neg (by simp [hentry, filter_of_stale hstale])]
        refine List.filter_congr fun key hkey ↦ ?_
        have hne : key ≠ first := fun heq ↦ hfirst (heq ▸ hkey)
        rw [FiniteMap.get_remove_of_ne _ hne]
      · rw [if_neg hstale]
        change first :: (retainFresh now ttl rest entries).1 = _
        have hfresh := filter_of_fresh (not_lt.mp hstale)
        rw [ih hrest, List.filter_cons_of_pos (by simp [hentry, hfresh])]

/-- An expiry keeps the fresh entries. Assumes: the invariant. -/
theorem get_expire {table : PendingTable} (hsound : table.Sound) (now : Instant) (key : DestKey) :
    (table.expire now).entries.get key =
      (table.entries.get key).filter (Fresh table.ttl now) := by
  have hget := get_retainFresh now table.ttl hsound.nodup table.entries key
  change (retainFresh now table.ttl table.order table.entries).2.get key = _
  rw [hget]
  split_ifs with hmem
  · rfl
  · have hnone : table.entries.get key = none := by
      rw [← Option.not_isSome_iff_eq_none]
      exact fun hsome ↦ hmem (hsound.covered key hsome)
    rw [hnone, Option.filter_none]

theorem order_expire {table : PendingTable} (hsound : table.Sound) (now : Instant) :
    (table.expire now).order =
      table.order.filter fun key ↦ ((table.expire now).entries.get key).isSome := by
  have horder := order_retainFresh now table.ttl hsound.nodup table.entries
  change (retainFresh now table.ttl table.order table.entries).1 = _
  rw [horder]
  refine List.filter_congr fun key _ ↦ ?_
  rw [get_expire hsound]

/-- After an expiry the queue holds exactly the keys with an entry. Assumes: the invariant. -/
theorem orderedBy_expire {table : PendingTable} (hsound : table.Sound) (now : Instant) :
    (table.expire now).entries.OrderedBy (table.expire now).order := by
  rw [order_expire hsound]
  refine FiniteMap.orderedBy_filter hsound.nodup fun key hsome ↦ hsound.covered key ?_
  obtain ⟨entry, hget⟩ := Option.isSome_iff_exists.mp hsome
  rw [table.get_of_get_expire hget]
  rfl

theorem len_expire_le (table : PendingTable) (now : Instant) :
    (table.expire now).entries.len ≤ table.entries.len :=
  len_retainFresh_le _ _

/-- A queue with exactly the keys of a bounded table makes it sound. Assumes: it is one. -/
theorem sound_of_orderedBy {table : PendingTable} (hordered : table.entries.OrderedBy table.order)
    (hbounded : table.entries.len ≤ table.capacity) : table.Sound :=
  ⟨hordered.nodup, fun key hkey ↦ (hordered.mem_iff key).mpr hkey, hbounded⟩

theorem sound_expire {table : PendingTable} (hsound : table.Sound) (now : Instant) :
    (table.expire now).Sound :=
  sound_of_orderedBy (orderedBy_expire hsound now)
    ((len_expire_le table now).trans hsound.bounded)

/-! ### What an operation does -/

/-- An insertion stores an entry in the live table. -/
theorem insert_eq_store (table : PendingTable) (expireNow stampNow : Instant) (key : DestKey)
    (verdict : PacketVerdict) :
    table.insert expireNow stampNow key verdict = { table.expire expireNow with
      order := (FiniteMap.store table.capacity (table.expire expireNow).order
        (table.expire expireNow).entries key ⟨verdict, stampNow⟩).1
      entries := (FiniteMap.store table.capacity (table.expire expireNow).order
        (table.expire expireNow).entries key ⟨verdict, stampNow⟩).2 } := by
  unfold insert FiniteMap.store
  dsimp only
  split_ifs <;> rfl

/-- An insertion refreshes the entry of a key that has one, or brings the key in: at the back of the
queue, and in the place of the oldest key when the table is full. Assumes: the invariant. -/
theorem insert_cases {table : PendingTable} (hsound : table.Sound) (expireNow stampNow : Instant)
    (key : DestKey) (verdict : PacketVerdict) :
    let live := table.expire expireNow
    let after := table.insert expireNow stampNow key verdict
    ((live.entries.get key).isSome ∧ after.order = live.order ∧
        after.entries = live.entries.insert key ⟨verdict, stampNow⟩) ∨
      (live.entries.get key = none ∧ after.order = live.order ++ [key] ∧
        after.entries = live.entries.insert key ⟨verdict, stampNow⟩) ∨
      (live.entries.get key = none ∧ ∃ oldest rest, live.order = oldest :: rest ∧
        live.entries.len = table.capacity ∧ after.order = rest ++ [key] ∧
        after.entries = (live.entries.remove oldest).insert key ⟨verdict, stampNow⟩) := by
  intro live after
  have hbounded := (len_expire_le table expireNow).trans hsound.bounded
  have hafter : after = _ := table.insert_eq_store expireNow stampNow key verdict
  rcases FiniteMap.store_cases (orderedBy_expire hsound expireNow) hbounded table.capacity_pos key
    (⟨verdict, stampNow⟩ : PendingEntry) with
    ⟨hpresent, hstore⟩ | ⟨hnone, -, hstore⟩ | ⟨hnone, hfull, oldest, rest, horder, hstore⟩
  · rw [hafter, hstore]
    exact .inl ⟨hpresent, rfl, rfl⟩
  · rw [hafter, hstore]
    exact .inr (.inl ⟨hnone, rfl, rfl⟩)
  · rw [hafter, hstore]
    exact .inr (.inr ⟨hnone, oldest, rest, horder, hfull, rfl, rfl⟩)

theorem sound_insert {table : PendingTable} (hsound : table.Sound) (expireNow stampNow : Instant)
    (key : DestKey) (verdict : PacketVerdict) :
    (table.insert expireNow stampNow key verdict).Sound := by
  have hordered := orderedBy_expire hsound expireNow
  have hbounded := (len_expire_le table expireNow).trans hsound.bounded
  rw [insert_eq_store]
  exact sound_of_orderedBy
    (FiniteMap.orderedBy_store hordered hbounded table.capacity_pos key _)
    (FiniteMap.len_store_le hordered hbounded table.capacity_pos key _)

theorem sound_take {table : PendingTable} (hsound : table.Sound) (now : Instant) (key : DestKey) :
    (table.take now key).1.Sound := by
  have hlive := sound_expire hsound now
  refine ⟨hlive.nodup, fun other hother ↦ hlive.covered other ?_, ?_⟩
  · change (((table.expire now).entries.remove key).get other).isSome at hother
    rw [FiniteMap.get_remove] at hother
    split_ifs at hother
    · cases hother
    · exact hother
  · exact (FiniteMap.len_remove_le _ key).trans hlive.bounded

theorem sound_step {table : PendingTable} (hsound : table.Sound) (op : PendingOp) :
    (table.step op).Sound := by
  cases op with
  | insert expireNow stampNow key verdict =>
    exact sound_insert hsound expireNow stampNow key verdict
  | take now key => exact sound_take hsound now key

theorem capacity_step (table : PendingTable) (op : PendingOp) :
    (table.step op).capacity = table.capacity := by
  cases op with
  | insert expireNow stampNow key verdict =>
    change (table.insert expireNow stampNow key verdict).capacity = _
    rw [insert_eq_store, capacity_expire]
  | take now key => rfl

theorem ttl_step (table : PendingTable) (op : PendingOp) : (table.step op).ttl = table.ttl := by
  cases op with
  | insert expireNow stampNow key verdict => exact table.ttl_insert expireNow stampNow verdict
  | take now key => rfl

/-- An entry after an operation is that of an insertion of its key, or was there before an operation
that neither inserts nor takes the key. Assumes: the invariant. -/
theorem get_of_get_step {table : PendingTable} (hsound : table.Sound) (op : PendingOp)
    {key : DestKey} {entry : PendingEntry} (hget : (table.step op).entries.get key = some entry) :
    (∃ expireNow, op = .insert expireNow entry.insertedAt key entry.verdict) ∨
      (table.entries.get key = some entry ∧ op.key ≠ key) := by
  cases op with
  | insert expireNow stampNow inserted verdict =>
    change (table.insert expireNow stampNow inserted verdict).entries.get key = some entry at hget
    by_cases hkey : key = inserted
    · subst hkey
      rw [get_insert_self] at hget
      obtain rfl := Option.some.inj hget
      exact .inl ⟨expireNow, rfl⟩
    · refine .inr ⟨?_, Ne.symm hkey⟩
      rcases insert_cases hsound expireNow stampNow inserted verdict with
        ⟨-, -, hentries⟩ | ⟨-, -, hentries⟩ | ⟨-, oldest, _, -, -, -, hentries⟩
      · rw [hentries, FiniteMap.get_insert_of_ne _ hkey] at hget
        exact table.get_of_get_expire hget
      · rw [hentries, FiniteMap.get_insert_of_ne _ hkey] at hget
        exact table.get_of_get_expire hget
      · rw [hentries, FiniteMap.get_insert_of_ne _ hkey, FiniteMap.get_remove] at hget
        split_ifs at hget
        exact table.get_of_get_expire hget
  | take now taken =>
    change ((table.expire now).entries.remove taken).get key = some entry at hget
    rw [FiniteMap.get_remove] at hget
    split_ifs at hget with hkey
    exact .inr ⟨table.get_of_get_expire hget, Ne.symm hkey⟩

/-! ### The place of a key in the queue -/

/-- The key has no entry, or every key behind it in the queue is one of `others`. -/
def Behind (table : PendingTable) (key : DestKey) (others : Finset DestKey) : Prop :=
  table.entries.get key = none ∨
    ∃ front back, table.order = front ++ key :: back ∧ ∀ other ∈ back, other ∈ others

theorem behind_expire {table : PendingTable} (hsound : table.Sound) (now : Instant) {key : DestKey}
    {others : Finset DestKey} (hbehind : table.Behind key others) :
    (table.expire now).Behind key others := by
  cases hget : (table.expire now).entries.get key with
  | none => exact .inl hget
  | some entry =>
    rcases hbehind with hnone | ⟨front, back, horder, hback⟩
    · rw [table.get_of_get_expire hget] at hnone
      cases hnone
    · have hkept := order_expire hsound now
      rw [horder, List.filter_append, List.filter_cons_of_pos (by simp [hget])] at hkept
      exact .inr ⟨_, _, hkept, fun other hother ↦ hback other (List.mem_of_mem_filter hother)⟩

/-- The inserted key keeps its place, or is at the back. Assumes: the invariant. -/
theorem behind_insert_self {table : PendingTable} (hsound : table.Sound)
    (expireNow stampNow : Instant) {key : DestKey} (verdict : PacketVerdict)
    {others : Finset DestKey}
    (hbehind : ((table.expire expireNow).entries.get key).isSome → table.Behind key others) :
    (table.insert expireNow stampNow key verdict).Behind key others := by
  rcases insert_cases hsound expireNow stampNow key verdict with
    ⟨hpresent, horder, -⟩ | ⟨-, horder, -⟩ | ⟨-, oldest, rest, -, -, horder, -⟩
  · rcases behind_expire hsound expireNow (hbehind hpresent) with
      hnone | ⟨front, back, hplace, hback⟩
    · rw [hnone] at hpresent
      cases hpresent
    · exact .inr ⟨front, back, horder.trans hplace, hback⟩
  · exact .inr ⟨_, [], horder, by simp⟩
  · exact .inr ⟨rest, [], horder, by simp⟩

/-- Another inserted key is behind the key at most. Assumes: the invariant, and that it is one of
the others. -/
theorem behind_insert_of_ne {table : PendingTable} (hsound : table.Sound)
    (expireNow stampNow : Instant) {key inserted : DestKey} (hne : key ≠ inserted)
    (verdict : PacketVerdict) {others : Finset DestKey} (hmem : inserted ∈ others)
    (hbehind : table.Behind key others) :
    (table.insert expireNow stampNow inserted verdict).Behind key others := by
  have hlast : ∀ back : List DestKey, (∀ other ∈ back, other ∈ others) →
      ∀ other ∈ back ++ [inserted], other ∈ others := by
    intro back hback other hother
    rcases List.mem_append.mp hother with hold | hnew
    · exact hback other hold
    · rwa [List.mem_singleton.mp hnew]
  rcases insert_cases hsound expireNow stampNow inserted verdict with
    ⟨-, horder, hentries⟩ | ⟨-, horder, hentries⟩ |
      ⟨-, oldest, rest, hfront, -, horder, hentries⟩
  all_goals rcases behind_expire hsound expireNow hbehind with
    hnone | ⟨front, back, hplace, hback⟩
  · refine .inl ?_
    rw [hentries, FiniteMap.get_insert_of_ne _ hne, hnone]
  · exact .inr ⟨front, back, horder.trans hplace, hback⟩
  · refine .inl ?_
    rw [hentries, FiniteMap.get_insert_of_ne _ hne, hnone]
  · refine .inr ⟨front, back ++ [inserted], ?_, hlast back hback⟩
    rw [horder, hplace, List.append_assoc, List.cons_append]
  · refine .inl ?_
    rw [hentries, FiniteMap.get_insert_of_ne _ hne, FiniteMap.get_remove_eq_none hnone]
  · -- The key itself leaves when it is at the front.
    rw [hfront] at hplace
    rcases List.cons_eq_append_iff.mp hplace with ⟨rfl, hkey⟩ | ⟨front', rfl, hrest⟩
    · refine .inl ?_
      rw [hentries, FiniteMap.get_insert_of_ne _ hne, (List.cons.inj hkey).1,
        FiniteMap.get_remove_self]
    · refine .inr ⟨front', back ++ [inserted], ?_, hlast back hback⟩
      rw [horder, hrest, List.append_assoc, List.cons_append]

/-- Only an inserted key comes behind another. Assumes: the invariant, and that the key of an
insertion is one of the others or the key itself. -/
theorem behind_step {table : PendingTable} (hsound : table.Sound) {op : PendingOp} {key : DestKey}
    {others : Finset DestKey}
    (hothers : ∀ inserted, op.insertedKey = some inserted → inserted ≠ key → inserted ∈ others)
    (hbehind : table.Behind key others) : (table.step op).Behind key others := by
  cases op with
  | take now taken =>
    rcases behind_expire hsound now hbehind with hnone | ⟨front, back, horder, hback⟩
    · exact .inl (FiniteMap.get_remove_eq_none hnone taken)
    · exact .inr ⟨front, back, horder, hback⟩
  | insert expireNow stampNow inserted verdict =>
    by_cases hkey : inserted = key
    · subst hkey
      exact behind_insert_self hsound expireNow stampNow verdict fun _ ↦ hbehind
    · exact behind_insert_of_ne hsound expireNow stampNow (Ne.symm hkey) verdict
        (hothers inserted rfl hkey) hbehind

/-- Behind the key at the front is the rest of the queue. Assumes: the queue holds the keys of the
table. -/
theorem Behind.rest_of_front {table : PendingTable} {key : DestKey} {others : Finset DestKey}
    (hbehind : table.Behind key others) (hordered : table.entries.OrderedBy table.order)
    {rest : List DestKey} (hfront : table.order = key :: rest) :
    ∀ other ∈ rest, other ∈ others := by
  rcases hbehind with hnone | ⟨front, back, hplace, hback⟩
  · rw [hordered.get_eq_none_iff, hfront] at hnone
    exact absurd List.mem_cons_self hnone
  · have hnodup := hordered.nodup
    rw [hfront] at hplace hnodup
    rcases List.cons_eq_append_iff.mp hplace with ⟨rfl, hkey⟩ | ⟨front', rfl, hrest⟩
    · rwa [(List.cons.inj hkey).2] at hback
    · -- The key would be in the queue twice.
      rw [hrest] at hnodup
      simp at hnodup

/-- An insertion of another key keeps a fresh entry. Assumes: the invariant, and that the keys
behind it and the inserted one do not fill the table. -/
theorem get_insert_of_behind {table : PendingTable} (hsound : table.Sound)
    {expireNow : Instant} (stampNow : Instant) {key inserted : DestKey} (hne : key ≠ inserted)
    (verdict : PacketVerdict) {others : Finset DestKey} (hmem : inserted ∈ others)
    (hbehind : table.Behind key others) (hfew : others.card < table.capacity)
    {entry : PendingEntry} (hget : table.entries.get key = some entry)
    (hfresh : expireNow - entry.insertedAt ≤ table.ttl) :
    (table.insert expireNow stampNow inserted verdict).entries.get key = some entry := by
  have hlive := table.get_expire_of_fresh hget hfresh
  have hordered := orderedBy_expire hsound expireNow
  rcases insert_cases hsound expireNow stampNow inserted verdict with
    ⟨-, -, hentries⟩ | ⟨-, -, hentries⟩ | ⟨habsent, oldest, rest, hfront, hfull, -, hentries⟩
  · rw [hentries, FiniteMap.get_insert_of_ne _ hne, hlive]
  · rw [hentries, FiniteMap.get_insert_of_ne _ hne, hlive]
  · have hkept : key ≠ oldest := by
      rintro rfl
      -- The rest of the queue and the inserted key would be as many others as the table holds.
      have hrest := (behind_expire hsound expireNow hbehind).rest_of_front hordered hfront
      have hlen := hordered.len_eq
      have hnotin := (hordered.get_eq_none_iff inserted).mp habsent
      have hnodup := hordered.nodup
      rw [hfront] at hlen hnotin hnodup
      have hdistinct : (inserted :: rest).Nodup := by
        refine List.nodup_cons.mpr ⟨fun hin ↦ hnotin ?_, (List.nodup_cons.mp hnodup).2⟩
        exact List.mem_cons_of_mem _ hin
      have hsubset : (inserted :: rest).toFinset ⊆ others := by
        intro other hother
        rcases List.mem_cons.mp (List.mem_toFinset.mp hother) with rfl | hold
        · exact hmem
        · exact hrest other hold
      have hcard := Finset.card_le_card hsubset
      rw [List.toFinset_card_of_nodup hdistinct] at hcard
      rw [List.length_cons] at hlen hcard
      omega
    rw [hentries, FiniteMap.get_insert_of_ne _ hne, FiniteMap.get_remove_of_ne _ hkept, hlive]

/-! ### Runs -/

section Runs

open Run

variable (capacity : ℕ) (hcapacity : 0 < capacity) (ttl : Duration) (ops : List PendingOp)

/-- The table before the operation at an index, in a run from the empty table. -/
def tableAt (index : ℕ) : PendingTable := stateAt step (new capacity hcapacity ttl) ops index

/-- The latest insertion of the key before an index. -/
def LatestInsert (index : ℕ) (key : DestKey) (inserted : ℕ) (stampNow : Instant)
    (verdict : PacketVerdict) : Prop :=
  inserted < index ∧
  (∃ expireNow, ops[inserted]? = some (.insert expireNow stampNow key verdict)) ∧
  ∀ between op, inserted < between → between < index → ops[between]? = some op →
    op.insertedKey ≠ some key

/-- The operation at the index is a take of the key that returns a verdict. -/
def TakenAt (index : ℕ) (key : DestKey) : Prop :=
  ∃ now, ops[index]? = some (.take now key) ∧
    (((tableAt capacity hcapacity ttl ops index).take now key).2).isSome

/-- The latest insertion of the key before a take at `now` has the verdict, is not older than the
ttl, and no take of the key returned a verdict since. -/
def Deliverable (index : ℕ) (now : Instant) (key : DestKey) (verdict : PacketVerdict) : Prop :=
  ∃ inserted stampNow, LatestInsert ops index key inserted stampNow verdict ∧
    now - stampNow ≤ ttl ∧
    ∀ between, inserted < between → between < index →
      ¬ TakenAt capacity hcapacity ttl ops between key

/-- The operation at the index inserts the key while it is absent. -/
def BroughtInAt (index : ℕ) (key : DestKey) : Prop :=
  ArrivedAt step (new capacity hcapacity ttl) ops arrives index key

/-- The insertion that last brought the key in before an index. -/
def LastBroughtIn (index : ℕ) (key : DestKey) (brought : ℕ) : Prop :=
  LastArrival step (new capacity hcapacity ttl) ops arrives index key brought

/-- The other keys inserted between two operations. -/
def othersBetween (first last : ℕ) (key : DestKey) : Finset DestKey :=
  (((ops.take last).drop (first + 1)).filterMap PendingOp.insertedKey).toFinset.erase key

variable {capacity hcapacity ttl ops}

theorem mem_othersBetween {first last between : ℕ} {key other : DestKey} {op : PendingOp}
    (hfirst : first < between) (hlast : between < last) (hop : ops[between]? = some op)
    (hinserted : op.insertedKey = some other) (hne : other ≠ key) :
    other ∈ othersBetween ops first last key := by
  rw [othersBetween, Finset.mem_erase, List.mem_toFinset, List.mem_filterMap]
  refine ⟨hne, op, ?_, hinserted⟩
  rw [List.mem_iff_getElem?]
  refine ⟨between - (first + 1), ?_⟩
  rw [List.getElem?_drop, List.getElem?_take, if_pos (by omega), ← hop]
  congr 1
  omega

theorem sound_tableAt (index : ℕ) : (tableAt capacity hcapacity ttl ops index).Sound :=
  stateAt_invariant step _ ops Sound (sound_new capacity hcapacity ttl)
    (fun _ op hsound ↦ sound_step hsound op) index

theorem capacity_tableAt (index : ℕ) :
    (tableAt capacity hcapacity ttl ops index).capacity = capacity :=
  stateAt_invariant step _ ops (fun table ↦ table.capacity = capacity) rfl
    (fun table op hbefore ↦ (table.capacity_step op).trans hbefore) index

theorem ttl_tableAt (index : ℕ) : (tableAt capacity hcapacity ttl ops index).ttl = ttl :=
  stateAt_invariant step _ ops (fun table ↦ table.ttl = ttl) rfl
    (fun table op hbefore ↦ (table.ttl_step op).trans hbefore) index

/-- An entry of a run is that of the latest insertion of its key, and no take of the key came after
it. -/
theorem latest_of_get {index : ℕ} {key : DestKey} {entry : PendingEntry}
    (hget : (tableAt capacity hcapacity ttl ops index).entries.get key = some entry) :
    ∃ inserted, LatestInsert ops index key inserted entry.insertedAt entry.verdict ∧
      ∀ between now, inserted < between → between < index →
        ops[between]? ≠ some (.take now key) := by
  obtain ⟨inserted, hlt, ⟨op, hop, expireNow, rfl⟩, _, huntouched⟩ :=
    exists_source_of_view step (new capacity hcapacity ttl) ops Sound
      (fun table ↦ table.entries.get key) (sound_new capacity hcapacity ttl) rfl
      (fun _ op hsound ↦ sound_step hsound op)
      (fun _ op _ hsound hget ↦ get_of_get_step hsound op hget) hget
  refine ⟨inserted, ⟨hlt, ⟨expireNow, hop⟩, fun between op hafter hbefore hsome hkey ↦ ?_⟩,
    fun between now hafter hbefore hsome ↦ huntouched between _ hafter hbefore hsome rfl⟩
  refine huntouched between op hafter hbefore hsome ?_
  cases op with
  | insert _ _ other _ => exact Option.some.inj hkey
  | take _ _ => cases hkey

/-- A take returns the verdict of a live entry. Assumes: it returns a verdict. -/
theorem entry_of_take {table : PendingTable} (hsound : table.Sound) {now : Instant} {key : DestKey}
    {verdict : PacketVerdict} (htake : (table.take now key).2 = some verdict) :
    ∃ entry, table.entries.get key = some entry ∧ entry.verdict = verdict ∧
      now - entry.insertedAt ≤ table.ttl := by
  obtain ⟨entry, hlive, hverdict⟩ := Option.map_eq_some_iff.mp htake
  rw [get_expire hsound] at hlive
  obtain ⟨hget, hfresh⟩ := Option.filter_eq_some_iff.mp hlive
  exact ⟨entry, hget, hverdict, by simpa only [Fresh, decide_eq_true_eq] using hfresh⟩

/-- A verdict that a take returns is deliverable. -/
theorem deliverable_of_take {index : ℕ} {now : Instant} {key : DestKey} {verdict : PacketVerdict}
    (htake : ((tableAt capacity hcapacity ttl ops index).take now key).2 = some verdict) :
    Deliverable capacity hcapacity ttl ops index now key verdict := by
  obtain ⟨entry, hget, rfl, hfresh⟩ := entry_of_take (sound_tableAt index) htake
  obtain ⟨inserted, hlatest, huntaken⟩ := latest_of_get hget
  rw [ttl_tableAt] at hfresh
  refine ⟨inserted, entry.insertedAt, hlatest, hfresh, fun between hafter hbefore ↦ ?_⟩
  rintro ⟨now', htake', _⟩
  exact huntaken between now' hafter hbefore htake'

variable (capacity hcapacity ttl) in
/-- An inserted key was brought in by that insertion or an earlier one. Assumes: it is one. -/
theorem exists_broughtInAt (inserted : ℕ) {key : DestKey} {expireNow stampNow : Instant}
    {verdict : PacketVerdict}
    (hinsert : ops[inserted]? = some (.insert expireNow stampNow key verdict)) :
    ∃ brought ≤ inserted, BroughtInAt capacity hcapacity ttl ops brought key := by
  induction inserted using Nat.strong_induction_on generalizing expireNow stampNow verdict with
  | _ inserted ih =>
    let table := tableAt capacity hcapacity ttl ops inserted
    cases hlive : (table.expire expireNow).entries.get key with
    | none =>
      refine ⟨inserted, le_rfl, _, hinsert, ?_⟩
      exact (arrives_eq_some_iff _ _ key).mpr ⟨expireNow, stampNow, verdict, rfl, hlive⟩
    | some entry =>
      -- The entry is there, so the key was inserted before.
      obtain ⟨earlier, ⟨hlt, ⟨expireNow', hearlier⟩, -⟩, -⟩ :=
        latest_of_get (get_of_get_expire _ hlive)
      obtain ⟨brought, hle, hbrought⟩ := ih earlier hlt hearlier
      exact ⟨brought, hle.trans hlt.le, hbrought⟩

variable (capacity hcapacity ttl) in
/-- An inserted key was last brought in by some insertion. Assumes: it is inserted. -/
theorem exists_lastBroughtIn {index inserted : ℕ} {key : DestKey} {stampNow : Instant}
    {verdict : PacketVerdict} (hlatest : LatestInsert ops index key inserted stampNow verdict) :
    ∃ brought, LastBroughtIn capacity hcapacity ttl ops index key brought := by
  obtain ⟨hlt, ⟨expireNow, hinsert⟩, -⟩ := hlatest
  obtain ⟨first, hle, hfirst⟩ := exists_broughtInAt capacity hcapacity ttl inserted hinsert
  exact exists_last (hle.trans_lt hlt) hfirst

/-- After the insertion that brought a key in, only the keys inserted since are behind it. -/
theorem behind_tableAt {index brought : ℕ} {key : DestKey}
    (hbrought : BroughtInAt capacity hcapacity ttl ops brought key) :
    ∀ later, brought < later → later ≤ index →
      (tableAt capacity hcapacity ttl ops later).Behind key
        (othersBetween ops brought index key) := by
  obtain ⟨op, hop, harrives⟩ := hbrought
  obtain ⟨expireNow, stampNow, verdict, rfl, habsent⟩ := (arrives_eq_some_iff _ op key).mp harrives
  refine stateAt_induction step _ ops
    (fun table ↦ table.Behind key (othersBetween ops brought index key)) ?_ ?_
  · rw [stateAt_succ _ _ ops hop]
    refine behind_insert_self (sound_tableAt brought) expireNow stampNow verdict fun hpresent ↦ ?_
    exact absurd hpresent (Option.not_isSome_iff_eq_none.mpr habsent)
  · intro later hafter hbefore op hop' hbehind
    exact behind_step (sound_tableAt later)
      (fun inserted hinserted hne ↦ mem_othersBetween hafter hbefore hop' hinserted hne) hbehind

/-- The entry of the latest insertion stays until it is taken, while it is fresh and the other keys
inserted since the key was brought in do not fill the table. -/
theorem get_tableAt_of_latest (hclock : ClockForward PendingOp.readings ops)
    {index inserted brought : ℕ} {now stampNow : Instant} {key : DestKey} {verdict : PacketVerdict}
    (htake : ops[index]? = some (.take now key))
    (hlatest : LatestInsert ops index key inserted stampNow verdict)
    (hfresh : now - stampNow ≤ ttl)
    (huntaken : ∀ between, inserted < between → between < index →
      ¬ TakenAt capacity hcapacity ttl ops between key)
    (hbrought : BroughtInAt capacity hcapacity ttl ops brought key) (hle : brought ≤ inserted)
    (hfew : (othersBetween ops brought index key).card < capacity) :
    (tableAt capacity hcapacity ttl ops index).entries.get key = some ⟨verdict, stampNow⟩ := by
  obtain ⟨hlt, ⟨expireNow, hinsert⟩, hlast⟩ := hlatest
  refine stateAt_induction step (new capacity hcapacity ttl) ops
    (fun table ↦ table.entries.get key = some ⟨verdict, stampNow⟩) ?_ ?_ index hlt le_rfl
  · rw [stateAt_succ _ _ ops hinsert]
    exact get_insert_self _ expireNow stampNow verdict
  · intro later hafter hbefore op hop hget
    change (tableAt capacity hcapacity ttl ops later).entries.get key = _ at hget
    -- Every reading before the take finds the entry fresh.
    have hlive : ∀ reading ∈ op.readings,
        reading - stampNow ≤ (tableAt capacity hcapacity ttl ops later).ttl := by
      intro reading hreading
      have hle := hclock.le hbefore hop htake hreading List.mem_cons_self
      rw [ttl_tableAt]
      exact (Nat.sub_le_sub_right hle stampNow).trans hfresh
    cases op with
    | take reading taken =>
      have hstill := hlive reading List.mem_cons_self
      have hne : key ≠ taken := by
        rintro rfl
        refine huntaken later hafter hbefore ⟨reading, hop, ?_⟩
        rw [take_of_fresh _ hget hstill]
        rfl
      exact get_take_of_ne _ hne hget hstill
    | insert reading stamp other verdict' =>
      have hstill := hlive reading List.mem_cons_self
      have hne : key ≠ other := fun heq ↦ hlast later _ hafter hbefore hop (heq ▸ rfl)
      refine get_insert_of_behind (sound_tableAt later) stamp hne verdict'
        (mem_othersBetween (by omega) hbefore hop rfl (Ne.symm hne))
        (behind_tableAt hbrought later (by omega) hbefore.le) ?_ hget hstill
      rw [capacity_tableAt]
      exact hfew

variable (capacity hcapacity ttl)

/-- The pending table is a single-use timed map. A take returns the verdict of the latest insertion
of its key only while it is not older than the ttl and no take returned it; it does return it then,
when the other keys inserted since the key was last brought in are fewer than the capacity; and two
takes of a key that return a verdict have an insertion of the key between them. Assumes: the clock
does not go back. -/
theorem single_use_timed_map (hclock : ClockForward PendingOp.readings ops) {index : ℕ}
    {now : Instant} {key : DestKey} (htake : ops[index]? = some (.take now key))
    (verdict : PacketVerdict) :
    (((tableAt capacity hcapacity ttl ops index).take now key).2 = some verdict →
      Deliverable capacity hcapacity ttl ops index now key verdict) ∧
    (Deliverable capacity hcapacity ttl ops index now key verdict →
      ∃ brought, LastBroughtIn capacity hcapacity ttl ops index key brought ∧
        ((othersBetween ops brought index key).card < capacity →
          ((tableAt capacity hcapacity ttl ops index).take now key).2 = some verdict)) ∧
    (∀ earlier < index, TakenAt capacity hcapacity ttl ops earlier key →
      ((tableAt capacity hcapacity ttl ops index).take now key).2 = some verdict →
      ∃ between expireNow stampNow, earlier < between ∧ between < index ∧
        ops[between]? = some (.insert expireNow stampNow key verdict)) := by
  refine ⟨deliverable_of_take, ?_, ?_⟩
  · rintro ⟨inserted, stampNow, hlatest, hfresh, huntaken⟩
    obtain ⟨brought, hlast⟩ := exists_lastBroughtIn capacity hcapacity ttl hlatest
    have hlt := hlast.1
    have hbrought := hlast.2.1
    refine ⟨brought, hlast, fun hfew ↦ ?_⟩
    have hle : brought ≤ inserted := by
      by_contra hafter
      obtain ⟨op, hop, harrives⟩ := hbrought
      obtain ⟨_, _, _, rfl, -⟩ := (arrives_eq_some_iff _ op key).mp harrives
      exact hlatest.2.2 brought _ (not_le.mp hafter) hlt hop rfl
    have hget :=
      get_tableAt_of_latest hclock htake hlatest hfresh huntaken hbrought hle hfew
    refine take_of_fresh _ hget ?_
    rw [ttl_tableAt]
    exact hfresh
  · intro earlier hlt htaken hreturn
    obtain ⟨inserted, stampNow, ⟨hinserted, ⟨expireNow, hop⟩, -⟩, -, huntaken⟩ :=
      deliverable_of_take hreturn
    refine ⟨inserted, expireNow, stampNow, ?_, hinserted, hop⟩
    by_contra hnot
    rcases Nat.lt_or_eq_of_le (not_lt.mp hnot) with hbefore | rfl
    · exact huntaken earlier hbefore hlt htaken
    · obtain ⟨_, hop', _⟩ := htaken
      rw [hop] at hop'
      cases hop'

/-- An accept for one destination, a drop for another, and the first one overwritten by a drop
before its packet comes. -/
def overwrittenRun : List PendingOp :=
  [.insert 0 0 ⟨1, 443⟩ .accept, .insert 1 1 ⟨2, 443⟩ .drop, .insert 2 2 ⟨1, 443⟩ .drop,
    .take 5 ⟨1, 443⟩]

theorem overwritten_verdict_deliverable :
    ClockForward PendingOp.readings overwrittenRun ∧
    ((tableAt 2 two_pos 10 overwrittenRun 3).take 5 ⟨1, 443⟩).2 = some .drop ∧
    Deliverable 2 two_pos 10 overwrittenRun 3 5 ⟨1, 443⟩ .drop := by
  have hclock : ClockForward PendingOp.readings overwrittenRun := by decide
  have htake : ((tableAt 2 two_pos 10 overwrittenRun 3).take 5 ⟨1, 443⟩).2 = some .drop := by decide
  exact ⟨hclock, htake, (single_use_timed_map 2 two_pos 10 hclock rfl .drop).1 htake⟩

end Runs

end PendingTable

end InterFire
