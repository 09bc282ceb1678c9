import InterFire.Library.Arrivals

/-!
# Bounded tables of stamped entries

A `TimedTable` stores entries under keys, each with a reading of a clock. A queue of the keys stands
beside it: a key that is brought in joins at the back, an entry that is stored again keeps its
place, and the key at the front leaves when room is needed.

Two things may be said of an evicted entry: that it is the least recent one, when every storing of a
key counts (`EvictsLeastRecent`), and that it is the one that was brought in first, when only the
storing that brought the key in counts (`EvictsFirstIn`). The second holds along every run under a
clock that does not go back (`evictsFirstIn_of_clockForward`).
-/

set_option autoImplicit false
set_option relaxedAutoImplicit false

open Run

/-- A table of stamped entries: its operations and their readings of the clock, the key and stamp
that an operation stores, the key it brings in, the entries that are live when it makes room, and
the queue of the keys. -/
structure TimedTable (σ ω κ ι : Type*) where
  step : σ → ω → σ
  readings : ω → List ι
  stored : σ → ω → Option (κ × ι)
  arrives : σ → ω → Option κ
  live : σ → ω → κ → Prop
  holds : σ → κ → Prop
  sound : σ → Prop
  queue : σ → List κ
  liveQueue : σ → ω → List κ
  sound_step : ∀ state op, sound state → sound (step state op)
  stored_of_arrives : ∀ state op key, arrives state op = some key →
    ∃ stamp, stored state op = some (key, stamp) ∧ stamp ∈ readings op
  queue_step : ∀ state op, sound state → ∃ kept, kept.Sublist (queue state) ∧
    queue (step state op) = kept ++ (arrives state op).toList ∧
    ∀ key, arrives state op = some key → key ∉ kept
  liveQueue_sublist : ∀ state op, sound state → (liveQueue state op).Sublist (queue state)
  mem_liveQueue : ∀ state op key, sound state → live state op key → key ∈ liveQueue state op
  front_of_evicted : ∀ state op key, sound state → live state op key →
    ¬ holds (step state op) key → ∃ rest, liveQueue state op = key :: rest

namespace TimedTable

variable {σ ω κ ι : Type*} (table : TimedTable σ ω κ ι) (start : σ) (ops : List ω)

/-- The operation at an index evicts the live entry of a key. -/
def EvictedAt (index : ℕ) (op : ω) (key : κ) : Prop :=
  ops[index]? = some op ∧ table.live (stateAt table.step start ops index) op key ∧
    ¬ table.holds (table.step (stateAt table.step start ops index) op) key

/-- The operation at an index stores an entry, stamped with an instant. -/
def StoredAt (index : ℕ) (key : κ) (stamp : ι) : Prop :=
  ∃ op, ops[index]? = some op ∧
    table.stored (stateAt table.step start ops index) op = some (key, stamp)

/-- The entry of a key was last stored at an instant. -/
def LastStored (bound : ℕ) (key : κ) (stamp : ι) : Prop :=
  ∃ index < bound, table.StoredAt start ops index key stamp ∧
    ∀ between later, index < between → between < bound →
      ¬ table.StoredAt start ops between key later

/-- The operation at an index last brought a key in, at an instant. -/
def LastBroughtIn (bound : ℕ) (key : κ) (index : ℕ) (stamp : ι) : Prop :=
  LastArrival table.step start ops table.arrives bound key index ∧
    table.StoredAt start ops index key stamp

/-- An evicted entry was stored no later than any other live one. -/
def EvictsLeastRecent [LE ι] : Prop :=
  ∀ index op evicted other stamp later, table.EvictedAt start ops index op evicted →
    table.live (stateAt table.step start ops index) op other →
    table.LastStored start ops index evicted stamp →
    table.LastStored start ops index other later → stamp ≤ later

/-- An evicted entry was brought in before every other live one. -/
def EvictsFirstIn [LE ι] : Prop :=
  ∀ index op evicted, table.EvictedAt start ops index op evicted →
    ∃ first stamp, table.LastBroughtIn start ops index evicted first stamp ∧
      ∀ other ≠ evicted, table.live (stateAt table.step start ops index) op other →
        ∃ second later, table.LastBroughtIn start ops index other second later ∧
          first < second ∧ stamp ≤ later

variable {start ops}

/-- The arrival of a key stores it, at a reading of its operation. -/
theorem exists_lastBroughtIn {bound index : ℕ} {key : κ}
    (hlast : LastArrival table.step start ops table.arrives bound key index) :
    ∃ op stamp, ops[index]? = some op ∧ stamp ∈ table.readings op ∧
      table.LastBroughtIn start ops bound key index stamp := by
  obtain ⟨op, hop, harrives⟩ := hlast.2.1
  obtain ⟨stamp, hstored, hreading⟩ := table.stored_of_arrives _ op key harrives
  exact ⟨op, stamp, hop, hreading, hlast, op, hop, hstored⟩

variable (ops) in
/-- The live keys stand in the order in which they were brought in. Assumes: a sound start with an
empty queue. -/
theorem inOrder_liveQueue (hstart : table.sound start) (hempty : table.queue start = [])
    (index : ℕ) (op : ω) :
    InOrder table.step start ops table.arrives index
      (table.liveQueue (stateAt table.step start ops index) op) := by
  have hsound :=
    stateAt_invariant table.step start ops table.sound hstart table.sound_step index
  have hqueue := inOrder_stateAt ops table.sound table.queue hstart hempty table.sound_step
    table.queue_step index
  exact hqueue.sublist (table.liveQueue_sublist _ op hsound)

/-- The table evicts the entry that was brought in first. Assumes: a sound start with an empty
queue, and a clock that does not go back. -/
theorem evictsFirstIn_of_clockForward [LE ι] (hstart : table.sound start)
    (hempty : table.queue start = []) (hclock : ClockForward table.readings ops) :
    table.EvictsFirstIn start ops := by
  rintro index op evicted ⟨-, hlive, hgone⟩
  have hsound :=
    stateAt_invariant table.step start ops table.sound hstart table.sound_step index
  have horder := table.inOrder_liveQueue ops hstart hempty index op
  obtain ⟨rest, hfront⟩ := table.front_of_evicted _ op evicted hsound hlive hgone
  rw [hfront] at horder
  obtain ⟨first, hfirst⟩ := horder.arrived evicted List.mem_cons_self
  obtain ⟨firstOp, stamp, hfirstOp, hreading, hbrought⟩ := table.exists_lastBroughtIn hfirst
  refine ⟨first, stamp, hbrought, fun other hne hother ↦ ?_⟩
  have hmem := table.mem_liveQueue _ op other hsound hother
  rw [hfront] at hmem
  have hrest : other ∈ rest := (List.mem_cons.mp hmem).resolve_left hne
  obtain ⟨second, hsecond⟩ := horder.arrived other hmem
  obtain ⟨secondOp, later, hsecondOp, hreading', hbrought'⟩ := table.exists_lastBroughtIn hsecond
  have hlt : first < second :=
    (List.pairwise_cons.mp horder.sorted).1 other hrest first second hfirst hsecond
  exact ⟨second, later, hbrought', hlt, hclock.le hlt hfirstOp hsecondOp hreading hreading'⟩

end TimedTable
