import Mathlib.Data.Set.Card

/-!
# Runs of a step function, and single-use tokens along them

A run is a start state and a list of operations; `stateAt` is the state before the operation at an
index. `stateAt_invariant` is the induction rule for runs: a property of the start state that every
operation of the run preserves holds at every index. `stateAt_invariant_of_steps` is the form in
which the operations of the run are known to satisfy a condition in the state they are taken in, and
`stateAt_induction` the form for a part of a run.

`ClockForward` says of a run that the clock readings of its operations do not go back.

A `log` keeps what the operations of a run record. A value that an operation replaces by its record,
when it makes one, is the last record of the log (`view_stateAt`). `exists_source_of_view` finds the
operation that put a value there, and from which it has been in view, when other operations may end
it.

The second part is about tokens. In a `Ledger` a key may hold a token, an operation may grant a
token to a key, and an operation may consume the token a key holds; a token that is held after a
step was granted by the step or was held before it and not consumed. `consumption_injection` is the
accounting theorem: along every run that starts with no token there is an injective map from the
consumptions to the grants, each consumption is mapped to an earlier grant of the very token it
consumed, and `ncard_consumed_le_ncard_granted` counts them for each key.
-/

set_option autoImplicit false
set_option relaxedAutoImplicit false

namespace Run

variable {σ ω : Type*}

/-- The state before the operation at `index`, or the last state beyond the end of the run. -/
def stateAt (step : σ → ω → σ) (start : σ) (ops : List ω) (index : ℕ) : σ :=
  (ops.take index).foldl step start

section Invariants

variable (step : σ → ω → σ) (start : σ) (ops : List ω)

@[simp] theorem stateAt_zero : stateAt step start ops 0 = start := rfl

theorem stateAt_succ {index : ℕ} {op : ω} (hop : ops[index]? = some op) :
    stateAt step start ops (index + 1) = step (stateAt step start ops index) op := by
  simp [stateAt, List.take_add_one, hop]

theorem stateAt_succ_of_none {index : ℕ} (hend : ops[index]? = none) :
    stateAt step start ops (index + 1) = stateAt step start ops index := by
  simp [stateAt, List.take_add_one, hend]

theorem stateAt_length : stateAt step start ops ops.length = ops.foldl step start := by
  simp [stateAt]

/-- Induction along a part of a run. Assumes: the property holds at its first index, and every
operation of that part preserves it. -/
theorem stateAt_induction (property : σ → Prop) {first last : ℕ}
    (hfirst : property (stateAt step start ops first))
    (hstep : ∀ index, first ≤ index → index < last → ∀ op, ops[index]? = some op →
      property (stateAt step start ops index) →
      property (step (stateAt step start ops index) op)) :
    ∀ index, first ≤ index → index ≤ last → property (stateAt step start ops index) := by
  intro index hle
  induction index, hle using Nat.le_induction with
  | base => intro _; exact hfirst
  | succ index hle ih =>
    intro hlast
    have hbefore := ih (by omega)
    cases hop : ops[index]? with
    | none => rw [stateAt_succ_of_none step start ops hop]; exact hbefore
    | some op =>
      rw [stateAt_succ step start ops hop]
      exact hstep index hle hlast op hop hbefore

/-- The induction rule for runs whose operations satisfy a condition in the state they are taken
in. Assumes: the property holds of the start state, and an operation of the run that meets its
condition preserves it. -/
theorem stateAt_invariant_of_steps (property : σ → Prop) {allowed : σ → ω → Prop}
    (hstart : property start)
    (hstep : ∀ state op, property state → allowed state op → property (step state op))
    {bound : ℕ}
    (hallowed : ∀ index < bound, ∀ op, ops[index]? = some op →
      allowed (stateAt step start ops index) op) :
    ∀ index ≤ bound, property (stateAt step start ops index) := by
  intro index hle
  have hzero : property (stateAt step start ops 0) := hstart
  refine stateAt_induction step start ops property hzero (fun index _ hlt op hop hbefore ↦ ?_)
    index (Nat.zero_le index) hle
  exact hstep _ op hbefore (hallowed index hlt op hop)

/-- The induction rule for runs. Assumes: the property holds of the start state and every operation
preserves it. -/
theorem stateAt_invariant (property : σ → Prop) (hstart : property start)
    (hstep : ∀ state op, property state → property (step state op)) (index : ℕ) :
    property (stateAt step start ops index) := by
  have hsteps : ∀ state op, property state → True → property (step state op) :=
    fun state op hproperty _ ↦ hstep state op hproperty
  exact stateAt_invariant_of_steps step start ops property hstart hsteps
    (fun _ _ _ _ ↦ trivial) index le_rfl

end Invariants

/-! ### Clocks -/

section Clocks

variable {ι : Type*} [LE ι] (readings : ω → List ι) (ops : List ω)

/-- The readings of a clock that the operations make do not go back. -/
def ClockForward : Prop := (ops.flatMap readings).Pairwise (· ≤ ·)

instance [DecidableLE ι] : Decidable (ClockForward readings ops) :=
  inferInstanceAs (Decidable (List.Pairwise _ _))

variable {readings ops}

/-- Assumes: the clock does not go back, and an earlier and a later operation. -/
theorem ClockForward.le (hclock : ClockForward readings ops) {earlier later : ℕ}
    (hlt : earlier < later) {first second : ω} (hfirst : ops[earlier]? = some first)
    (hsecond : ops[later]? = some second) {reading next : ι} (hreading : reading ∈ readings first)
    (hnext : next ∈ readings second) : reading ≤ next := by
  have hpairs := (List.pairwise_flatMap.mp hclock).2
  obtain ⟨hearlier, rfl⟩ := List.getElem?_eq_some_iff.mp hfirst
  obtain ⟨hlater, rfl⟩ := List.getElem?_eq_some_iff.mp hsecond
  exact List.pairwise_iff_getElem.mp hpairs _ _ hearlier hlater hlt _ hreading _ hnext

end Clocks

/-- The last index of a kind before a bound. Assumes: there is one. -/
theorem exists_last {kind : ℕ → Prop} {first bound : ℕ} (hlt : first < bound)
    (hfirst : kind first) :
    ∃ last < bound, kind last ∧ ∀ between, last < between → between < bound → ¬ kind between := by
  classical
  refine ⟨Nat.findGreatest kind (bound - 1), ?_,
    Nat.findGreatest_spec (m := first) (by omega) hfirst, fun between hafter hbefore ↦ ?_⟩
  · have hle := Nat.findGreatest_le (P := kind) (bound - 1)
    omega
  · exact Nat.findGreatest_is_greatest hafter (by omega)

/-! ### The log of a run -/

section Log

variable {α : Type*} (step : σ → ω → σ) (record : σ → ω → Option α) (start : σ) (ops : List ω)

/-- What the operations before `index` record, oldest first. -/
def log : ℕ → List α
  | 0 => []
  | index + 1 =>
    log index ++ (ops[index]?.bind (record (stateAt step start ops index))).toList

/-- An operation makes at most one record. -/
theorem length_log_le (index : ℕ) : (log step record start ops index).length ≤ index := by
  induction index with
  | zero => exact le_rfl
  | succ index ih =>
    rw [log, List.length_append]
    have hone := Option.length_toList_le
      (o := ops[index]?.bind (record (stateAt step start ops index)))
    omega

/-- The log only grows. Assumes: a later index. -/
theorem log_grows {index later : ℕ} (hle : index ≤ later) :
    log step record start ops index <+: log step record start ops later := by
  induction later, hle using Nat.le_induction with
  | base => exact List.prefix_rfl
  | succ later _ ih => exact ih.trans (List.prefix_append _ _)

/-- A value that each operation replaces by what it records is that of the last record. Assumes: the
property holds at the start, every operation preserves it, and in the states with the property an
operation replaces the value exactly by what it records. -/
theorem view_stateAt {β : Type*} (property : σ → Prop) (encode : α → β) (view : σ → Option β)
    (hstart : property start)
    (hproperty : ∀ state op, property state → property (step state op))
    (hview : ∀ state op, property state →
      view (step state op) = ((record state op).map encode).or (view state)) (index : ℕ) :
    view (stateAt step start ops index) =
      ((log step record start ops index).getLast?.map encode).or (view start) := by
  induction index with
  | zero => rfl
  | succ index ih =>
    cases hop : ops[index]? with
    | none => simp [stateAt_succ_of_none step start ops hop, log, hop, ih]
    | some op =>
      have hbefore := stateAt_invariant step start ops property hstart hproperty index
      rw [stateAt_succ step start ops hop, hview _ op hbefore, ih, log, hop]
      cases hrecord : record (stateAt step start ops index) op <;> simp [hrecord]

end Log

/-! ### Where a value comes from -/

section Source

variable {τ : Type*} (step : σ → ω → σ) (start : σ) (ops : List ω)

/-- What has been in view, and not been ended, stays so by one more operation. Assumes: the value is in
view after it, and it does not end it. -/
theorem inView_succ {view : σ → Option τ} {ends : σ → ω → Prop} {before index : ℕ} {value : τ}
    (hseen : ∀ between, before < between → between ≤ index →
      view (stateAt step start ops between) = some value)
    (hkept : ∀ between op, before < between → between < index → ops[between]? = some op →
      ¬ ends (stateAt step start ops between) op)
    (hnow : view (stateAt step start ops (index + 1)) = some value)
    (hnot : ∀ op, ops[index]? = some op → ¬ ends (stateAt step start ops index) op) :
    (∀ between, before < between → between ≤ index + 1 →
      view (stateAt step start ops between) = some value) ∧
    ∀ between op, before < between → between < index + 1 → ops[between]? = some op →
      ¬ ends (stateAt step start ops between) op := by
  refine ⟨fun between hafter hbound ↦ ?_, fun between op hafter hbound hop ↦ ?_⟩
  · rcases Nat.le_succ_iff.mp hbound with hbound | rfl
    · exact hseen between hafter hbound
    · exact hnow
  · rcases Nat.lt_succ_iff_lt_or_eq.mp hbound with hbound | rfl
    · exact hkept between op hafter hbound hop
    · exact hnot op hop

/-- A value in view was put there by an earlier operation, it has been in view since, and no operation
since ended it. Assumes: no value at the start, a property that every operation preserves, and that in
the states with the property a value in view after an operation is put there by it, or was in view and
is not ended. -/
theorem exists_source_of_view (property : σ → Prop) (view : σ → Option τ)
    {source : σ → ω → τ → Prop} {ends : σ → ω → Prop}
    (hstart : property start) (hempty : view start = none)
    (hproperty : ∀ state op, property state → property (step state op))
    (hview : ∀ state op value, property state → view (step state op) = some value →
      source state op value ∨ (view state = some value ∧ ¬ ends state op))
    {index : ℕ} {value : τ} (hvalue : view (stateAt step start ops index) = some value) :
    ∃ before < index,
      (∃ op, ops[before]? = some op ∧ source (stateAt step start ops before) op value) ∧
      (∀ between, before < between → between ≤ index →
        view (stateAt step start ops between) = some value) ∧
      ∀ between op, before < between → between < index → ops[between]? = some op →
        ¬ ends (stateAt step start ops between) op := by
  induction index with
  | zero =>
    rw [stateAt_zero, hempty] at hvalue
    cases hvalue
  | succ index ih =>
    have hnow := hvalue
    cases hop : ops[index]? with
    | none =>
      rw [stateAt_succ_of_none step start ops hop] at hvalue
      obtain ⟨before, hlt, hsource, hseen, hkept⟩ := ih hvalue
      refine ⟨before, by omega, hsource, inView_succ step start ops hseen hkept hnow ?_⟩
      exact fun op hsome ↦ nomatch hop.symm.trans hsome
    | some op =>
      have hbefore := stateAt_invariant step start ops property hstart hproperty index
      rw [stateAt_succ step start ops hop] at hvalue
      rcases hview _ op value hbefore hvalue with hsource | ⟨hearlier, hnot⟩
      · refine ⟨index, by omega, ⟨op, hop, hsource⟩, fun between hafter hbound ↦ ?_,
          fun between _ hafter hbound ↦ by omega⟩
        rwa [show between = index + 1 by omega]
      · obtain ⟨before, hlt, hsource, hseen, hkept⟩ := ih hearlier
        refine ⟨before, by omega, hsource, inView_succ step start ops hseen hkept hnow ?_⟩
        intro other hother
        obtain rfl := Option.some.inj (hop.symm.trans hother)
        exact hnot

end Source

/-! ### Single-use tokens -/

/-- A system with single-use tokens: what a step does, the token a key holds, the grant an
operation makes and the key whose token it consumes. A token held after a step was granted by it or
was held before and not consumed, and only a held token is consumed. -/
structure Ledger (σ ω κ τ : Type*) where
  step : σ → ω → σ
  held : σ → κ → Option τ
  granted : σ → ω → Option (κ × τ)
  consumed : σ → ω → Option κ
  held_step : ∀ state op key token, held (step state op) key = some token →
    granted state op = some (key, token) ∨
      (held state key = some token ∧ consumed state op ≠ some key)
  held_of_consumed : ∀ state op key, consumed state op = some key →
    ∃ token, held state key = some token

namespace Ledger

variable {κ τ : Type*} (ledger : Ledger σ ω κ τ) (start : σ) (ops : List ω)

/-- The operation at `index` grants `token` to `key`. -/
def GrantedAt (index : ℕ) (key : κ) (token : τ) : Prop :=
  ∃ op, ops[index]? = some op ∧
    ledger.granted (stateAt ledger.step start ops index) op = some (key, token)

/-- The operation at `index` consumes the token of `key`. -/
def ConsumedAt (index : ℕ) (key : κ) : Prop :=
  ∃ op, ops[index]? = some op ∧
    ledger.consumed (stateAt ledger.step start ops index) op = some key

/-- One operation makes at most one grant. -/
theorem key_unique_of_grantedAt {index : ℕ} {key other : κ} {token later : τ}
    (hfirst : ledger.GrantedAt start ops index key token)
    (hsecond : ledger.GrantedAt start ops index other later) : key = other := by
  obtain ⟨op, hop, hgrant⟩ := hfirst
  obtain ⟨op', hop', hgrant'⟩ := hsecond
  obtain rfl := Option.some.inj (hop.symm.trans hop')
  exact (Prod.mk.inj (Option.some.inj (hgrant.symm.trans hgrant'))).1

/-- A held token was granted earlier in the run, has been held since and not been consumed. Assumes: no
token at the start. -/
theorem exists_grant_of_held (hempty : ∀ key, ledger.held start key = none) (index : ℕ) {key : κ}
    {token : τ} (hheld : ledger.held (stateAt ledger.step start ops index) key = some token) :
    ∃ grant < index, ledger.GrantedAt start ops grant key token ∧
      (∀ between, grant < between → between ≤ index →
        ledger.held (stateAt ledger.step start ops between) key = some token) ∧
      ∀ between, grant < between → between < index → ¬ ledger.ConsumedAt start ops between key := by
  obtain ⟨grant, hlt, ⟨op, hop, hgranted⟩, hseen, hkept⟩ :=
    exists_source_of_view ledger.step start ops (fun _ ↦ True) (fun state ↦ ledger.held state key)
      trivial (hempty key) (fun _ _ _ ↦ trivial)
      (fun state op token _ hheld ↦ ledger.held_step state op key token hheld) hheld
  refine ⟨grant, hlt, ⟨op, hop, hgranted⟩, hseen, fun between hafter hbefore ↦ ?_⟩
  rintro ⟨other, hother, hconsumed⟩
  exact hkept between other hafter hbefore hother hconsumed

/-- Consumptions map injectively to earlier grants of the tokens that they use, and the token is held
from the one to the other. Assumes: no token at the start. -/
theorem consumption_sources (hempty : ∀ key, ledger.held start key = none) :
    ∃ source : ℕ → ℕ,
      Set.InjOn source {index | ∃ key, ledger.ConsumedAt start ops index key} ∧
      ∀ index key, ledger.ConsumedAt start ops index key →
        source index < index ∧ ∃ token,
          ledger.held (stateAt ledger.step start ops index) key = some token ∧
          ledger.GrantedAt start ops (source index) key token ∧
          ∀ between, source index < between → between ≤ index →
            ledger.held (stateAt ledger.step start ops between) key = some token := by
  classical
  have hsource : ∀ index, (∃ key, ledger.ConsumedAt start ops index key) →
      ∃ grant < index, ∀ key, ledger.ConsumedAt start ops index key →
        (∃ token, ledger.held (stateAt ledger.step start ops index) key = some token ∧
          ledger.GrantedAt start ops grant key token ∧
          ∀ between, grant < between → between ≤ index →
            ledger.held (stateAt ledger.step start ops between) key = some token) ∧
        ∀ between, grant < between → between < index →
          ¬ ledger.ConsumedAt start ops between key := by
    rintro index ⟨key, op, hop, hconsumed⟩
    obtain ⟨token, hheld⟩ := ledger.held_of_consumed _ op key hconsumed
    obtain ⟨grant, hlt, hgrant, hseen, hkept⟩ :=
      ledger.exists_grant_of_held start ops hempty index hheld
    refine ⟨grant, hlt, fun other hother ↦ ?_⟩
    obtain ⟨op', hop', hconsumed'⟩ := hother
    obtain rfl := Option.some.inj (hop.symm.trans hop')
    obtain rfl := Option.some.inj (hconsumed.symm.trans hconsumed')
    exact ⟨⟨token, hheld, hgrant, hseen⟩, hkept⟩
  choose! source hbefore hsourced using hsource
  refine ⟨source, ?_, fun index key hconsumed ↦
    ⟨hbefore index ⟨key, hconsumed⟩, (hsourced index ⟨key, hconsumed⟩ key hconsumed).1⟩⟩
  -- Two consumptions with one source consume the same key, and the earlier one lies between.
  have hordered : ∀ first second, first < second →
      (∃ key, ledger.ConsumedAt start ops first key) →
      (∃ key, ledger.ConsumedAt start ops second key) → source first ≠ source second := by
    rintro first second hlt ⟨key, hfirst⟩ ⟨other, hsecond⟩ heq
    obtain ⟨⟨_, _, hgrant, _⟩, _⟩ := hsourced first ⟨key, hfirst⟩ key hfirst
    obtain ⟨⟨_, _, hgrant', _⟩, hkept⟩ := hsourced second ⟨other, hsecond⟩ other hsecond
    rw [heq] at hgrant
    obtain rfl := ledger.key_unique_of_grantedAt start ops hgrant hgrant'
    exact hkept first (heq ▸ hbefore first ⟨key, hfirst⟩) hlt hfirst
  intro first hfirst second hsecond heq
  rcases lt_trichotomy first second with hlt | heqIndex | hgt
  · exact absurd heq (hordered first second hlt hfirst hsecond)
  · exact heqIndex
  · exact absurd heq.symm (hordered second first hgt hsecond hfirst)

/-- The accounting theorem. Assumes: no token at the start. Consumptions map injectively to earlier
grants, and each consumption uses the token that its grant issued for the same key. -/
theorem consumption_injection (hempty : ∀ key, ledger.held start key = none) :
    ∃ source : ℕ → ℕ,
      Set.InjOn source {index | ∃ key, ledger.ConsumedAt start ops index key} ∧
      ∀ index key, ledger.ConsumedAt start ops index key →
        source index < index ∧ ∃ token,
          ledger.held (stateAt ledger.step start ops index) key = some token ∧
          ledger.GrantedAt start ops (source index) key token := by
  obtain ⟨source, hinjective, hsource⟩ := ledger.consumption_sources start ops hempty
  refine ⟨source, hinjective, fun index key hconsumed ↦ ?_⟩
  obtain ⟨hbefore, token, hheld, hgrant, _⟩ := hsource index key hconsumed
  exact ⟨hbefore, token, hheld, hgrant⟩

/-- Counting form: a key's token is consumed at most as often as one was granted to it. Assumes: no
token at the start. -/
theorem ncard_consumed_le_ncard_granted (hempty : ∀ key, ledger.held start key = none) (key : κ) :
    {index | ledger.ConsumedAt start ops index key}.ncard ≤
      {index | ∃ token, ledger.GrantedAt start ops index key token}.ncard := by
  obtain ⟨source, hinjective, hsource⟩ := ledger.consumption_injection start ops hempty
  have hfinite : {index | ∃ token, ledger.GrantedAt start ops index key token}.Finite := by
    refine (Set.finite_lt_nat ops.length).subset ?_
    rintro index ⟨_, op, hop, _⟩
    exact (List.getElem?_eq_some_iff.mp hop).1
  refine Set.ncard_le_ncard_of_injOn source ?_ ?_ hfinite
  · intro index hconsumed
    obtain ⟨_, token, _, hgrant⟩ := hsource index key hconsumed
    exact ⟨token, hgrant⟩
  · intro first hfirst second hsecond heq
    exact hinjective ⟨key, hfirst⟩ ⟨key, hsecond⟩ heq

end Ledger

end Run
