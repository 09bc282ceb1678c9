import Mathlib.Algebra.BigOperators.Group.List.Lemmas
import InterFire.Library.Arrivals
import InterFire.Statistics

/-!
# The statistics add up

`StatsStore::record` counts a connection in five dimensions, each a bounded map with an order queue.
A bump of a dimension is a `FiniteMap.store` (`bump_eq_store`), so the queue holds the keys of the
rows, each once, in the order in which they were last inserted. `hits_dimensionAt` links a row to the
history: its hits are the records of its key since that insertion. While no row was evicted they are
all the records of the key (`count_dimensionAt`), which is why the rows then sum to the records.

`stats_add_up` is this for every run of records and unattributed denials.
-/

set_option autoImplicit false
set_option relaxedAutoImplicit false

namespace InterFire

open Run

/-! ### One row -/

namespace StatsCounters

/-- The verdicts of a row account for its hits. -/
def Balanced (row : StatsCounters) : Prop :=
  row.hits.toNat = row.allow.toNat + row.deny.toNat + row.prompt.toNat

/-- The words that the policy uses for its verdicts. -/
def verdictWords : List String := ["allow", "deny", "prompt"]

theorem hits_bump (row : StatsCounters) (verdict : String) :
    (row.bump verdict).hits = saturatingAdd row.hits 1 := by
  unfold bump
  split <;> rfl

/-- One more hit under a verdict of the policy. Assumes: the counters have room. -/
theorem balanced_bump {row : StatsCounters} (hbalanced : row.Balanced)
    (hroom : row.hits.toNat + 1 < 2 ^ 64) {verdict : String} (hword : verdict ∈ verdictWords) :
    (row.bump verdict).Balanced := by
  unfold Balanced at hbalanced ⊢
  rw [hits_bump, toNat_saturatingAdd_one hroom]
  simp only [verdictWords, List.mem_cons, List.not_mem_nil, or_false] at hword
  rcases hword with rfl | rfl | rfl
  · change _ = (saturatingAdd row.allow 1).toNat + row.deny.toNat + row.prompt.toNat
    rw [toNat_saturatingAdd_one (by omega)]
    omega
  · change _ = row.allow.toNat + (saturatingAdd row.deny 1).toNat + row.prompt.toNat
    rw [toNat_saturatingAdd_one (by omega)]
    omega
  · change _ = row.allow.toNat + row.deny.toNat + (saturatingAdd row.prompt 1).toNat
    rw [toNat_saturatingAdd_one (by omega)]
    omega

end StatsCounters

/-! ### One dimension -/

namespace StatsDimension

variable {κ : Type} [DecidableEq κ]

/-- The row of a key, or a fresh one. -/
def rowOf (dimension : StatsDimension κ) (key : κ) : StatsCounters :=
  (dimension.counters.get key).getD .zero

/-- A bump stores the bumped row of its key. -/
theorem bump_eq_store (dimension : StatsDimension κ) (key : κ) (verdict : String) :
    let stored := FiniteMap.store maxStatsKeys dimension.order dimension.counters key
      ((dimension.rowOf key).bump verdict)
    dimension.bump key verdict = { counters := stored.2, order := stored.1 } := by
  intro stored
  have hstored := FiniteMap.update_eq_store maxStatsKeys dimension.order dimension.counters key
    .zero fun row ↦ row.bump verdict
  rw [show stored = _ from hstored.symm]
  rfl

/-- The row of a bumped key. -/
theorem get_bump_self (dimension : StatsDimension κ) (key : κ) (verdict : String) :
    (dimension.bump key verdict).counters.get key = some ((dimension.rowOf key).bump verdict) := by
  rw [bump_eq_store]
  exact FiniteMap.get_store_self ..

/-- The order holds the keys of the rows, each once, and there are no more than the bound. -/
structure Bounded (dimension : StatsDimension κ) : Prop where
  ordered : dimension.counters.OrderedBy dimension.order
  few : dimension.counters.len ≤ maxStatsKeys

theorem bounded_empty : (empty : StatsDimension κ).Bounded :=
  ⟨FiniteMap.orderedBy_empty, Nat.zero_le _⟩

theorem bounded_bump {dimension : StatsDimension κ} (hbounded : dimension.Bounded) (key : κ)
    (verdict : String) : (dimension.bump key verdict).Bounded := by
  rw [bump_eq_store]
  exact ⟨FiniteMap.orderedBy_store hbounded.ordered hbounded.few (by decide) key _,
    FiniteMap.len_store_le hbounded.ordered hbounded.few (by decide) key _⟩

/-- Every key of the order has its row in the list. Assumes: the order holds the keys. -/
theorem snapshot_eq {dimension : StatsDimension κ} (hbounded : dimension.Bounded) :
    dimension.snapshot = dimension.order.reverse.map fun key ↦ (key, dimension.rowOf key) := by
  rw [snapshot, ← List.filterMap_eq_map]
  refine List.filterMap_congr fun key hmem ↦ ?_
  have hbound := (hbounded.ordered.mem_iff key).mp (List.mem_reverse.mp hmem)
  obtain ⟨row, hrow⟩ := Option.isSome_iff_exists.mp hbound
  simp [rowOf, hrow]

/-! ### The history of a dimension -/

section History

variable (keyOf : ConnectStats → κ) (hits : List ConnectStats)

/-- Count a connection under its key in the dimension. -/
def count (dimension : StatsDimension κ) (hit : ConnectStats) : StatsDimension κ :=
  dimension.bump (keyOf hit) hit.verdict

/-- The key that a connection brings into the dimension. -/
def insertedKey (dimension : StatsDimension κ) (hit : ConnectStats) : Option κ :=
  dimension.counters.newKey (keyOf hit)

/-- The dimension before a record. -/
abbrev dimensionAt (index : ℕ) : StatsDimension κ := stateAt (count keyOf) empty hits index

/-- The last insertion of a key before a record. -/
abbrev LastInserted (bound : ℕ) (key : κ) (index : ℕ) : Prop :=
  LastArrival (count keyOf) empty hits (insertedKey keyOf) bound key index

/-- The records of a key from one record to another. -/
def recordsOf (key : κ) (first bound : ℕ) : ℕ :=
  ((hits.take bound).drop first).countP fun hit ↦ keyOf hit = key

theorem bounded_dimensionAt (index : ℕ) : (dimensionAt keyOf hits index).Bounded :=
  stateAt_invariant (count keyOf) empty hits Bounded bounded_empty
    (fun _ hit hbounded ↦ bounded_bump hbounded (keyOf hit) hit.verdict) index

/-- The order is that of the last insertions. -/
theorem inOrder_dimensionAt (index : ℕ) :
    InOrder (count keyOf) empty hits (insertedKey keyOf) index
      (dimensionAt keyOf hits index).order := by
  refine inOrder_stateAt hits Bounded order bounded_empty rfl
    (fun _ hit hbounded ↦ bounded_bump hbounded (keyOf hit) hit.verdict) ?_ index
  intro dimension hit hbounded
  rw [bump_eq_store]
  exact FiniteMap.order_store hbounded.ordered hbounded.few (by decide) (keyOf hit) _

variable {keyOf hits}

theorem arrivedAt_iff {index : ℕ} {hit : ConnectStats} (hhit : hits[index]? = some hit) (key : κ) :
    ArrivedAt (count keyOf) empty hits (insertedKey keyOf) index key ↔
      key = keyOf hit ∧ (dimensionAt keyOf hits index).counters.get (keyOf hit) = none := by
  rw [← FiniteMap.newKey_eq_some_iff]
  constructor
  · rintro ⟨other, hother, harrives⟩
    obtain rfl := Option.some.inj (hhit.symm.trans hother)
    exact harrives
  · intro hnew
    exact ⟨hit, hhit, hnew⟩

/-- One more record. Assumes: it is not before the first one counted. -/
theorem recordsOf_succ {index : ℕ} {hit : ConnectStats} (hhit : hits[index]? = some hit) (key : κ)
    {first : ℕ} (hfirst : first ≤ index) :
    recordsOf keyOf hits key first (index + 1) =
      recordsOf keyOf hits key first index + if keyOf hit = key then 1 else 0 := by
  obtain ⟨hlt, rfl⟩ := List.getElem?_eq_some_iff.mp hhit
  have hlength : (hits.take index).length = index := List.length_take_of_le hlt.le
  rw [recordsOf, recordsOf, ← List.take_append_getElem hlt,
    List.drop_append_of_le_length (hlength.symm ▸ hfirst), List.countP_append,
    List.countP_singleton]
  simp

theorem recordsOf_le (key : κ) (first bound : ℕ) : recordsOf keyOf hits key first bound ≤ bound :=
  calc recordsOf keyOf hits key first bound
      ≤ ((hits.take bound).drop first).length := List.countP_le_length
    _ ≤ (hits.take bound).length := by
      rw [List.length_drop]
      exact Nat.sub_le _ _
    _ ≤ bound := List.length_take_le bound hits

/-- Another key keeps its row under a bump, or loses it. Assumes: a row of the other key is there
afterwards. -/
theorem get_of_get_bump {dimension : StatsDimension κ} {key other : κ} {verdict : String}
    {row : StatsCounters} (hne : other ≠ key)
    (hget : (dimension.bump key verdict).counters.get other = some row) :
    dimension.counters.get other = some row := by
  rcases FiniteMap.get_of_get_update_makeRoom hget with ⟨heq, -⟩ | hbefore
  · exact absurd heq hne
  · exact hbefore

variable (keyOf) in
/-- What the history says about a row: its hits are the records of its key since it was last
inserted, and the verdicts account for them. -/
def TellsHistory (hits : List ConnectStats) (index : ℕ) (key : κ) (row : StatsCounters) : Prop :=
  row.Balanced ∧ ∃ first, LastInserted keyOf hits index key first ∧
    row.hits.toNat = recordsOf keyOf hits key first index

/-- The row of the key of a record. Assumes: the row before it tells the history. -/
theorem tellsHistory_self {index : ℕ} {hit : ConnectStats} (hhit : hits[index]? = some hit)
    (hword : hit.verdict ∈ StatsCounters.verdictWords) (hfew : hits.length < 2 ^ 64)
    (hbefore : ∀ row, (dimensionAt keyOf hits index).counters.get (keyOf hit) = some row →
      TellsHistory keyOf hits index (keyOf hit) row) :
    TellsHistory keyOf hits (index + 1) (keyOf hit)
      (((dimensionAt keyOf hits index).rowOf (keyOf hit)).bump hit.verdict) := by
  have hlt := (List.getElem?_eq_some_iff.mp hhit).1
  cases hget : (dimensionAt keyOf hits index).counters.get (keyOf hit) with
  | none =>
    -- A new key starts a row of its own with this record.
    have hrow : (dimensionAt keyOf hits index).rowOf (keyOf hit) = .zero := by
      rw [rowOf, hget, Option.getD_none]
    have harrived := (arrivedAt_iff hhit (keyOf hit)).mpr ⟨rfl, hget⟩
    rw [hrow]
    have hzero : StatsCounters.zero.Balanced := rfl
    refine ⟨StatsCounters.balanced_bump hzero (by decide) hword, index,
      (lastArrival_succ_self harrived).mpr rfl, ?_⟩
    have hnone : recordsOf keyOf hits (keyOf hit) index index = 0 := by
      rw [recordsOf, List.drop_eq_nil_of_le (List.length_take_le index hits), List.countP_nil]
    rw [StatsCounters.hits_bump, recordsOf_succ hhit (keyOf hit) le_rfl, hnone, if_pos rfl]
    rfl
  | some row =>
    obtain ⟨hbalanced, first, hlast, hhits⟩ := hbefore row hget
    have hrow : (dimensionAt keyOf hits index).rowOf (keyOf hit) = row := by
      rw [rowOf, hget, Option.getD_some]
    have hnot : ¬ ArrivedAt (count keyOf) empty hits (insertedKey keyOf) index (keyOf hit) := by
      rw [arrivedAt_iff hhit, hget]
      simp
    have hbound : recordsOf keyOf hits (keyOf hit) first index ≤ index := recordsOf_le ..
    have hroom : row.hits.toNat + 1 < 2 ^ 64 := by omega
    rw [hrow]
    refine ⟨StatsCounters.balanced_bump hbalanced hroom hword, first,
      (lastArrival_succ_of_not hnot).mpr hlast, ?_⟩
    rw [StatsCounters.hits_bump, toNat_saturatingAdd_one hroom,
      recordsOf_succ hhit (keyOf hit) hlast.1.le, if_pos rfl, hhits]

/-- The row of another key. Assumes: it tells the history before the record. -/
theorem tellsHistory_of_ne {index : ℕ} {hit : ConnectStats} (hhit : hits[index]? = some hit)
    {key : κ} (hne : key ≠ keyOf hit) {row : StatsCounters}
    (hbefore : TellsHistory keyOf hits index key row) :
    TellsHistory keyOf hits (index + 1) key row := by
  obtain ⟨hbalanced, first, hlast, hhits⟩ := hbefore
  have hnot : ¬ ArrivedAt (count keyOf) empty hits (insertedKey keyOf) index key := by
    rw [arrivedAt_iff hhit]
    exact fun hand ↦ hne hand.1
  refine ⟨hbalanced, first, (lastArrival_succ_of_not hnot).mpr hlast, ?_⟩
  rw [recordsOf_succ hhit key hlast.1.le, if_neg (Ne.symm hne), hhits, Nat.add_zero]

variable (keyOf) in
/-- Every row tells the history, along every run of records. Assumes: the verdicts of the policy,
and fewer records than a counter can count. -/
theorem hits_dimensionAt (hwords : ∀ hit ∈ hits, hit.verdict ∈ StatsCounters.verdictWords)
    (hfew : hits.length < 2 ^ 64) {index : ℕ} (hindex : index ≤ hits.length) {key : κ}
    {row : StatsCounters} (hrow : (dimensionAt keyOf hits index).counters.get key = some row) :
    TellsHistory keyOf hits index key row := by
  induction index generalizing key row with
  | zero =>
    rw [show (dimensionAt keyOf hits 0).counters.get key = none from FiniteMap.get_empty key]
      at hrow
    cases hrow
  | succ index ih =>
    have hhit : hits[index]? = some hits[index] := List.getElem?_eq_getElem hindex
    have hstep : dimensionAt keyOf hits (index + 1) =
        (dimensionAt keyOf hits index).bump (keyOf hits[index]) hits[index].verdict :=
      stateAt_succ (count keyOf) empty hits hhit
    rw [hstep] at hrow
    by_cases hkey : key = keyOf hits[index]
    · subst hkey
      rw [get_bump_self] at hrow
      obtain rfl := Option.some.inj hrow
      exact tellsHistory_self hhit (hwords _ (List.getElem_mem hindex)) hfew
        fun row hget ↦ ih (Nat.le_of_succ_le hindex) hget
    · exact tellsHistory_of_ne hhit hkey
        (ih (Nat.le_of_succ_le hindex) (get_of_get_bump hkey hrow))

variable (keyOf hits) in
/-- Only keys of records have rows. -/
theorem mem_of_mem_order {index : ℕ} {key : κ}
    (hmem : key ∈ (dimensionAt keyOf hits index).order) : key ∈ hits.map keyOf := by
  obtain ⟨first, -, ⟨hit, hhit, harrives⟩, -⟩ := (inOrder_dimensionAt keyOf hits index).arrived key hmem
  obtain ⟨rfl, -⟩ := (FiniteMap.newKey_eq_some_iff _ _ _).mp harrives
  exact List.mem_map_of_mem (List.mem_of_getElem? hhit)

/-- A new key finds room. Assumes: the records have no more keys than a dimension holds. -/
theorem room_of_few_keys (hkeys : (hits.map keyOf).toFinset.card ≤ maxStatsKeys) {index : ℕ}
    {hit : ConnectStats} (hhit : hits[index]? = some hit)
    (hnew : (dimensionAt keyOf hits index).counters.get (keyOf hit) = none) :
    (dimensionAt keyOf hits index).counters.len ≠ maxStatsKeys := by
  intro hfull
  have hordered := (bounded_dimensionAt keyOf hits index).ordered
  have hnodup : (keyOf hit :: (dimensionAt keyOf hits index).order).Nodup :=
    List.nodup_cons.mpr ⟨(hordered.get_eq_none_iff _).mp hnew, hordered.nodup⟩
  have hsubset : (keyOf hit :: (dimensionAt keyOf hits index).order).toFinset ⊆
      (hits.map keyOf).toFinset := by
    intro key hmem
    rw [List.mem_toFinset] at hmem ⊢
    rcases List.mem_cons.mp hmem with rfl | hrow
    · exact List.mem_map_of_mem (List.mem_of_getElem? hhit)
    · exact mem_of_mem_order keyOf hits hrow
  have hcard := Finset.card_le_card hsubset
  rw [List.toFinset_card_of_nodup hnodup, List.length_cons, ← hordered.len_eq, hfull] at hcard
  omega

/-- The rows after a record. Assumes: the records have no more keys than a dimension holds. -/
theorem rowOf_dimensionAt_succ (hkeys : (hits.map keyOf).toFinset.card ≤ maxStatsKeys) {index : ℕ}
    {hit : ConnectStats} (hhit : hits[index]? = some hit) (key : κ) :
    (dimensionAt keyOf hits (index + 1)).rowOf key =
      if key = keyOf hit then ((dimensionAt keyOf hits index).rowOf key).bump hit.verdict
      else (dimensionAt keyOf hits index).rowOf key := by
  have hbounded := bounded_dimensionAt keyOf hits index
  have hstep : dimensionAt keyOf hits (index + 1) =
      (dimensionAt keyOf hits index).bump (keyOf hit) hit.verdict :=
    stateAt_succ (count keyOf) empty hits hhit
  have hinsert : (dimensionAt keyOf hits (index + 1)).counters =
      (dimensionAt keyOf hits index).counters.insert (keyOf hit)
        (((dimensionAt keyOf hits index).rowOf (keyOf hit)).bump hit.verdict) := by
    rw [hstep, bump_eq_store]
    rcases FiniteMap.store_cases hbounded.ordered hbounded.few (by decide) (keyOf hit)
        (((dimensionAt keyOf hits index).rowOf (keyOf hit)).bump hit.verdict) with
      ⟨-, hstore⟩ | ⟨-, -, hstore⟩ | ⟨hnew, hfull, -⟩
    · rw [hstore]
    · rw [hstore]
    · exact absurd hfull (room_of_few_keys hkeys hhit hnew)
  rw [rowOf, hinsert, FiniteMap.get_insert]
  split_ifs with hkey
  · rw [hkey, Option.getD_some]
  · rfl

variable (keyOf) in
/-- A row counts all the records of its key. Assumes: the records have no more keys than a dimension
holds, and are fewer than a counter can count. -/
theorem count_dimensionAt (hkeys : (hits.map keyOf).toFinset.card ≤ maxStatsKeys)
    (hfew : hits.length < 2 ^ 64) {index : ℕ} (hindex : index ≤ hits.length) (key : κ) :
    ((dimensionAt keyOf hits index).rowOf key).hits.toNat = recordsOf keyOf hits key 0 index := by
  induction index with
  | zero =>
    rw [rowOf, show (dimensionAt keyOf hits 0).counters.get key = none from FiniteMap.get_empty key]
    rfl
  | succ index ih =>
    have hhit : hits[index]? = some hits[index] := List.getElem?_eq_getElem hindex
    have hbefore := ih (Nat.le_of_succ_le hindex)
    have hbound : recordsOf keyOf hits key 0 index ≤ index := recordsOf_le ..
    rw [rowOf_dimensionAt_succ hkeys hhit, recordsOf_succ hhit key (Nat.zero_le index)]
    by_cases hkey : key = keyOf hits[index]
    · rw [if_pos hkey, if_pos hkey.symm, StatsCounters.hits_bump,
        toNat_saturatingAdd_one (by omega), hbefore]
    · rw [if_neg hkey, if_neg (Ne.symm hkey), hbefore, Nat.add_zero]

/-- The rows sum to the records. Assumes: the records have no more keys than a dimension holds, and
are fewer than a counter can count. -/
theorem sum_hits_dimensionAt (hkeys : (hits.map keyOf).toFinset.card ≤ maxStatsKeys)
    (hfew : hits.length < 2 ^ 64) :
    ((dimensionAt keyOf hits hits.length).snapshot.map fun row ↦ row.2.hits.toNat).sum =
      hits.length := by
  have hbounded := bounded_dimensionAt keyOf hits hits.length
  have hcount : ∀ key, ((dimensionAt keyOf hits hits.length).rowOf key).hits.toNat =
      (hits.map keyOf).count key := by
    intro key
    rw [count_dimensionAt keyOf hkeys hfew le_rfl, recordsOf, List.take_length, List.drop_zero,
      List.count, List.countP_map]
    refine List.countP_congr fun hit _ ↦ ?_
    simp
  have hperm : (dimensionAt keyOf hits hits.length).order.reverse.Perm (hits.map keyOf).dedup := by
    rw [List.perm_ext_iff_of_nodup (List.nodup_reverse.mpr hbounded.ordered.nodup)
      (List.nodup_dedup _)]
    intro key
    rw [List.mem_reverse, List.mem_dedup]
    refine ⟨mem_of_mem_order keyOf hits, fun hmem ↦ ?_⟩
    -- A key without a row would count no record.
    by_contra hfree
    have hnone := (hbounded.ordered.get_eq_none_iff key).mpr hfree
    have hzero := hcount key
    rw [rowOf, hnone, Option.getD_none] at hzero
    exact absurd (List.count_pos_iff.mpr hmem) (by rw [← hzero]; decide)
  rw [snapshot_eq hbounded, List.map_map]
  have hmap : (fun row ↦ row.2.hits.toNat) ∘
      (fun key ↦ (key, (dimensionAt keyOf hits hits.length).rowOf key)) =
        fun key ↦ (hits.map keyOf).count key := funext hcount
  rw [hmap, (hperm.map _).sum_eq, List.sum_map_count_dedup_eq_length, List.length_map]

end History

end StatsDimension

/-! ### Runs of the store -/

/-- A call of the store. -/
inductive StatsOp
  | record (hit : ConnectStats)
  | recordUnattributedDeny
  deriving DecidableEq, Repr

namespace StatsOp

def step (store : StatsStore) : StatsOp → StatsStore
  | .record hit => store.record hit
  | .recordUnattributedDeny => store.recordUnattributedDeny

/-- The connection of a record. -/
def hit? : StatsOp → Option ConnectStats
  | .record hit => some hit
  | .recordUnattributedDeny => none

/-- The call counts a denial. -/
def denies : StatsOp → Bool
  | .record hit => hit.verdict = "deny"
  | .recordUnattributedDeny => true

end StatsOp

namespace StatsStore

/-- The store after a sequence of calls. -/
def after (ops : List StatsOp) : StatsStore := ops.foldl StatsOp.step new

/-- The connections of the records of a sequence. -/
def recorded (ops : List StatsOp) : List ConnectStats := ops.filterMap StatsOp.hit?

theorem toNat_connections_step (store : StatsStore) (op : StatsOp) :
    (op.step store).connections.toNat = min (store.connections.toNat + 1) (2 ^ 64 - 1) := by
  cases op with
  | record hit => exact toNat_saturatingAdd_one_eq store.connections
  | recordUnattributedDeny => exact toNat_saturatingAdd_one_eq store.connections

theorem toNat_denied_step (store : StatsStore) (op : StatsOp) :
    (op.step store).denied.toNat =
      if op.denies then min (store.denied.toNat + 1) (2 ^ 64 - 1) else store.denied.toNat := by
  cases op with
  | record hit =>
    change (if hit.verdict = "deny" then saturatingAdd store.denied 1 else store.denied).toNat =
      if decide (hit.verdict = "deny") then _ else _
    by_cases hdeny : hit.verdict = "deny"
    · rw [if_pos hdeny, if_pos (decide_eq_true hdeny), toNat_saturatingAdd_one_eq]
    · rw [if_neg hdeny, if_neg (by simpa using hdeny)]
  | recordUnattributedDeny => exact toNat_saturatingAdd_one_eq store.denied

/-- The calls are counted. Assumes: the counter has room for them. -/
theorem toNat_connections_foldl (ops : List StatsOp) (store : StatsStore)
    (hroom : store.connections.toNat + ops.length < 2 ^ 64) :
    (ops.foldl StatsOp.step store).connections.toNat = store.connections.toNat + ops.length := by
  induction ops generalizing store with
  | nil => rfl
  | cons op rest ih =>
    rw [List.length_cons] at hroom
    have hstep := toNat_connections_step store op
    rw [List.foldl_cons, ih (op.step store) (by omega), hstep, List.length_cons]
    omega

/-- The denials are counted. Assumes: the counter has room for them. -/
theorem toNat_denied_foldl (ops : List StatsOp) (store : StatsStore)
    (hroom : store.denied.toNat + ops.length < 2 ^ 64) :
    (ops.foldl StatsOp.step store).denied.toNat =
      store.denied.toNat + ops.countP StatsOp.denies := by
  induction ops generalizing store with
  | nil => rfl
  | cons op rest ih =>
    rw [List.length_cons] at hroom
    have hstep := toNat_denied_step store op
    by_cases hdenies : op.denies
    · rw [if_pos hdenies] at hstep
      rw [List.foldl_cons, ih (op.step store) (by omega), hstep, List.countP_cons_of_pos hdenies]
      omega
    · rw [if_neg hdenies] at hstep
      rw [List.foldl_cons, ih (op.step store) (by omega), hstep, List.countP_cons_of_neg hdenies]

/-- A denial is a record with the verdict deny or an unattributed one. -/
theorem countP_denies (ops : List StatsOp) :
    ops.countP StatsOp.denies = (recorded ops).countP (fun hit ↦ hit.verdict = "deny") +
      ops.count .recordUnattributedDeny := by
  induction ops with
  | nil => rfl
  | cons op rest ih =>
    cases op with
    | record hit =>
      have hrecorded : recorded (.record hit :: rest) = hit :: recorded rest := rfl
      have hcount : (StatsOp.record hit :: rest).count .recordUnattributedDeny =
          rest.count .recordUnattributedDeny := List.count_cons_of_ne (by simp)
      have hsame : (StatsOp.record hit).denies = decide (hit.verdict = "deny") := rfl
      rw [List.countP_cons, ih, hrecorded, hcount, List.countP_cons, hsame, Nat.add_right_comm]
    | recordUnattributedDeny =>
      have hrecorded : recorded (.recordUnattributedDeny :: rest) = recorded rest := rfl
      rw [List.countP_cons, ih, hrecorded, List.count_cons_self]
      simp only [StatsOp.denies, if_true]
      omega

/-- A dimension of the store has the history of the records. Assumes: a record counts in the
dimension, and an unattributed denial does not. -/
theorem view_after {κ : Type} [DecidableEq κ] (view : StatsStore → StatsDimension κ)
    (keyOf : ConnectStats → κ) (hnew : view new = .empty)
    (hrecord : ∀ store hit, view (store.record hit) = (view store).bump (keyOf hit) hit.verdict)
    (hdeny : ∀ store, view store.recordUnattributedDeny = view store) (ops : List StatsOp) :
    view (after ops) = StatsDimension.dimensionAt keyOf (recorded ops) (recorded ops).length := by
  rw [StatsDimension.dimensionAt, stateAt_length, ← hnew, after]
  generalize new = store
  induction ops generalizing store with
  | nil => rfl
  | cons op rest ih =>
    cases op with
    | record hit =>
      rw [List.foldl_cons, ih]
      change _ = (recorded rest).foldl (StatsDimension.count keyOf)
        (StatsDimension.count keyOf (view store) hit)
      rw [StatsDimension.count, ← hrecord]
      rfl
    | recordUnattributedDeny =>
      rw [List.foldl_cons, ih]
      change (recorded rest).foldl (StatsDimension.count keyOf) (view store.recordUnattributedDeny) =
        (recorded rest).foldl (StatsDimension.count keyOf) (view store)
      rw [hdeny]

/-- What the rows of a dimension say about the records: they are few, under distinct keys, the key
inserted last first. A row counts the records since the insertion of its key, by their verdicts, and
while the records have no more keys than the dimension holds the rows count every record. -/
structure AddsUp {κ : Type} [DecidableEq κ] (keyOf : ConnectStats → κ) (hits : List ConnectStats)
    (rows : List (κ × StatsCounters)) : Prop where
  few : rows.length ≤ maxStatsKeys
  distinct : (rows.map Prod.fst).Nodup
  newest_first : rows.Pairwise fun newer older ↦ ∀ first second,
    StatsDimension.LastInserted keyOf hits hits.length newer.1 first →
    StatsDimension.LastInserted keyOf hits hits.length older.1 second → second < first
  balanced : ∀ row ∈ rows,
    row.2.hits.toNat = row.2.allow.toNat + row.2.deny.toNat + row.2.prompt.toNat
  since : ∀ row ∈ rows, ∃ first,
    StatsDimension.LastInserted keyOf hits hits.length row.1 first ∧
      row.2.hits.toNat = (hits.drop first).countP fun hit ↦ keyOf hit = row.1
  total : (hits.map keyOf).toFinset.card ≤ maxStatsKeys →
    (rows.map fun row ↦ row.2.hits.toNat).sum = hits.length

/-- Assumes: the verdicts of the policy, and fewer records than a counter can count. -/
theorem addsUp_dimensionAt {κ : Type} [DecidableEq κ] (keyOf : ConnectStats → κ)
    {hits : List ConnectStats}
    (hwords : ∀ hit ∈ hits, hit.verdict ∈ StatsCounters.verdictWords)
    (hfew : hits.length < 2 ^ 64) :
    AddsUp keyOf hits (StatsDimension.dimensionAt keyOf hits hits.length).snapshot := by
  have hbounded := StatsDimension.bounded_dimensionAt keyOf hits hits.length
  have hrows := StatsDimension.snapshot_eq hbounded
  have htold : ∀ row ∈ (StatsDimension.dimensionAt keyOf hits hits.length).snapshot,
      StatsDimension.TellsHistory keyOf hits hits.length row.1 row.2 := by
    intro row hrow
    obtain ⟨key, hkey, hget⟩ := List.mem_filterMap.mp hrow
    obtain ⟨counters, hcounters, rfl⟩ := Option.map_eq_some_iff.mp hget
    exact StatsDimension.hits_dimensionAt keyOf hwords hfew le_rfl hcounters
  refine ⟨?_, ?_, ?_, fun row hrow ↦ (htold row hrow).1, fun row hrow ↦ ?_,
    fun hkeys ↦ StatsDimension.sum_hits_dimensionAt hkeys hfew⟩
  · rw [hrows, List.length_map, List.length_reverse, ← hbounded.ordered.len_eq]
    exact hbounded.few
  · rw [hrows, List.map_map]
    change ((StatsDimension.dimensionAt keyOf hits hits.length).order.reverse.map id).Nodup
    rw [List.map_id]
    exact List.nodup_reverse.mpr hbounded.ordered.nodup
  · rw [hrows, List.pairwise_map, List.pairwise_reverse]
    exact (StatsDimension.inOrder_dimensionAt keyOf hits hits.length).sorted.imp
      fun hlt first second hfirst hsecond ↦ hlt second first hsecond hfirst
  · obtain ⟨-, first, hlast, hhits⟩ := htold row hrow
    refine ⟨first, hlast, ?_⟩
    rw [hhits, StatsDimension.recordsOf, List.take_length]

/-- The statistics add up along every sequence of calls. Assumes: the verdicts of the policy, and
fewer calls than a counter can count. -/
theorem stats_add_up (ops : List StatsOp)
    (hwords : ∀ hit, .record hit ∈ ops → hit.verdict ∈ ["allow", "deny", "prompt"])
    (hfew : ops.length < 2 ^ 64) :
    (after ops).connections.toNat = ops.length ∧
      (after ops).denied.toNat = (recorded ops).countP (fun hit ↦ hit.verdict = "deny") +
        ops.count .recordUnattributedDeny ∧
      AddsUp ConnectStats.host (recorded ops) (after ops).hosts.snapshot ∧
      AddsUp ConnectStats.executable (recorded ops) (after ops).procs.snapshot ∧
      AddsUp ConnectStats.ipv4 (recorded ops) (after ops).addrs.snapshot ∧
      AddsUp ConnectStats.port (recorded ops) (after ops).ports.snapshot ∧
      AddsUp ConnectStats.uid (recorded ops) (after ops).users.snapshot := by
  have hrecorded : ∀ hit ∈ recorded ops, hit.verdict ∈ StatsCounters.verdictWords := by
    intro hit hmem
    obtain ⟨op, hop, hhit⟩ := List.mem_filterMap.mp hmem
    cases op with
    | record found =>
      obtain rfl := Option.some.inj hhit
      exact hwords found hop
    | recordUnattributedDeny => cases hhit
  have hlength : (recorded ops).length < 2 ^ 64 := (List.length_filterMap_le _ _).trans_lt hfew
  have hconnections : new.connections.toNat = 0 := rfl
  have hdenied : new.denied.toNat = 0 := rfl
  refine ⟨?_, ?_, ?_, ?_, ?_, ?_, ?_⟩
  · rw [after, toNat_connections_foldl ops new (by omega), hconnections, Nat.zero_add]
  · rw [after, toNat_denied_foldl ops new (by omega), hdenied, Nat.zero_add, countP_denies]
  · rw [view_after hosts ConnectStats.host rfl (fun _ _ ↦ rfl) fun _ ↦ rfl]
    exact addsUp_dimensionAt _ hrecorded hlength
  · rw [view_after procs ConnectStats.executable rfl (fun _ _ ↦ rfl) fun _ ↦ rfl]
    exact addsUp_dimensionAt _ hrecorded hlength
  · rw [view_after addrs ConnectStats.ipv4 rfl (fun _ _ ↦ rfl) fun _ ↦ rfl]
    exact addsUp_dimensionAt _ hrecorded hlength
  · rw [view_after ports ConnectStats.port rfl (fun _ _ ↦ rfl) fun _ ↦ rfl]
    exact addsUp_dimensionAt _ hrecorded hlength
  · rw [view_after users ConnectStats.uid rfl (fun _ _ ↦ rfl) fun _ ↦ rfl]
    exact addsUp_dimensionAt _ hrecorded hlength

/-- Two connections of one program and a denial without attribution. -/
def curlCalls : List StatsOp :=
  [.record ⟨"/usr/bin/curl", "example.com", "10.0.0.10", 443, 1000, "prompt"⟩,
    .recordUnattributedDeny,
    .record ⟨"/usr/bin/curl", "10.0.0.9", "10.0.0.9", 443, 1000, "deny"⟩]

theorem curlCalls_add_up :
    (after curlCalls).connections.toNat = 3 ∧ (after curlCalls).denied.toNat = 2 ∧
      AddsUp ConnectStats.executable (recorded curlCalls) (after curlCalls).procs.snapshot := by
  have hsum := stats_add_up curlCalls (by simp [curlCalls]) (by decide)
  exact ⟨hsum.1, hsum.2.1, hsum.2.2.2.1⟩

end StatsStore

end InterFire
