import InterFire.Library.Run
import Mathlib.Order.Monotone.Basic

/-!
# Channels along runs

A `Channel` is a part of the state that is appended to at its end and taken from at its front: what a
step receives was at the front before it, and what it sends is at the end after it. Along a run
nothing is lost, doubled or reordered: `conservation` says that what was there at the start and what
was sent is what was received and what is still there. `sender_strictMono` finds for every receipt the
step that sent its item, an earlier one, in the order of the receipts.

`RecordedAt` says what the operation at an index of a run records, and `exists_recordedAt` finds the
operation behind an item of the log.
-/

set_option autoImplicit false
set_option relaxedAutoImplicit false

namespace Run

variable {σ ω α : Type*}

/-! ### The operation behind a record -/

section Recorded

variable (step : σ → ω → σ) (record : σ → ω → Option α) (start : σ) (ops : List ω)

/-- The operation at an index records an item. -/
def RecordedAt (index : ℕ) (item : α) : Prop :=
  ∃ op, ops[index]? = some op ∧ record (stateAt step start ops index) op = some item

theorem log_succ_of_recordedAt {index : ℕ} {item : α}
    (hrecorded : RecordedAt step record start ops index item) :
    log step record start ops (index + 1) = log step record start ops index ++ [item] := by
  obtain ⟨op, hop, hitem⟩ := hrecorded
  rw [log, hop, Option.bind_some, hitem, Option.toList_some]

/-- An item of the log was recorded by the operation that found the items before it. Assumes: the item
is in the log. -/
theorem exists_recordedAt {index place : ℕ} {item : α}
    (hitem : (log step record start ops index)[place]? = some item) :
    ∃ recorded < index, (log step record start ops recorded).length = place ∧
      RecordedAt step record start ops recorded item := by
  induction index with
  | zero => cases hitem
  | succ index ih =>
    by_cases hbefore : place < (log step record start ops index).length
    · rw [log, List.getElem?_append_left hbefore] at hitem
      obtain ⟨recorded, hlt, hfound⟩ := ih hitem
      exact ⟨recorded, by omega, hfound⟩
    · rw [log, List.getElem?_append_right (not_lt.mp hbefore)] at hitem
      cases hop : ops[index]? with
      | none => simp [hop] at hitem
      | some op =>
        cases hrecord : record (stateAt step start ops index) op with
        | none => simp [hop, hrecord] at hitem
        | some last =>
          rw [hop, Option.bind_some, hrecord, Option.toList_some, List.getElem?_singleton] at hitem
          split_ifs at hitem with hplace
          obtain rfl := Option.some.inj hitem
          exact ⟨index, by omega, by omega, op, hop, hrecord⟩

/-- A log of functions of the records. -/
theorem log_map {β : Type*} (change : α → β) (index : ℕ) :
    log step (fun state op ↦ (record state op).map change) start ops index =
      (log step record start ops index).map change := by
  induction index with
  | zero => rfl
  | succ index ih =>
    rw [log, log, ih, List.map_append]
    cases hop : ops[index]? with
    | none => rfl
    | some op => cases hrecord : record (stateAt step start ops index) op <;> simp [hrecord]

/-- A log with more items was read later. Assumes: it has more. -/
theorem lt_of_length_log_lt {first second : ℕ}
    (hlt : (log step record start ops first).length < (log step record start ops second).length) :
    first < second := by
  by_contra hle
  exact absurd (log_grows step record start ops (not_lt.mp hle)).length_le (not_le.mpr hlt)

end Recorded

/-! ### Channels -/

/-- A first-in first-out part of a state: what a step takes from the front of it and what it puts at
the end. -/
structure Channel (σ ω α : Type*) where
  step : σ → ω → σ
  items : σ → List α
  sent : σ → ω → Option α
  received : σ → ω → Option α
  items_step : ∀ state op, ∃ kept, items state = (received state op).toList ++ kept ∧
    items (step state op) = kept ++ (sent state op).toList

namespace Channel

variable (channel : Channel σ ω α) (start : σ) (ops : List ω)

/-- The operation at `index` sends an item. -/
def SentAt (index : ℕ) (item : α) : Prop :=
  RecordedAt channel.step channel.sent start ops index item

/-- The operation at `index` receives an item. -/
def ReceivedAt (index : ℕ) (item : α) : Prop :=
  RecordedAt channel.step channel.received start ops index item

/-- What has been sent before `index`, oldest first. -/
def sentLog (index : ℕ) : List α := log channel.step channel.sent start ops index

/-- What has been received before `index`, oldest first. -/
def receivedLog (index : ℕ) : List α := log channel.step channel.received start ops index

/-- Nothing is lost, doubled or reordered. -/
theorem conservation (index : ℕ) :
    channel.items start ++ channel.sentLog start ops index =
      channel.receivedLog start ops index ++
        channel.items (stateAt channel.step start ops index) := by
  induction index with
  | zero => simp [sentLog, receivedLog, log]
  | succ index ih =>
    rw [sentLog, receivedLog] at ih ⊢
    cases hop : ops[index]? with
    | none => simp [stateAt_succ_of_none _ _ _ hop, log, hop, ih]
    | some op =>
      obtain ⟨kept, hbefore, hafter⟩ :=
        channel.items_step (stateAt channel.step start ops index) op
      rw [stateAt_succ _ _ _ hop, hafter, log, log, hop, Option.bind_some, Option.bind_some,
        ← List.append_assoc, ih, hbefore]
      simp only [List.append_assoc]

/-- The item of a receipt is the next one of those sent. Assumes: the channel is empty at the start,
and the receipt. -/
theorem sentLog_of_receivedAt (hempty : channel.items start = []) {index : ℕ} {item : α}
    (hreceived : channel.ReceivedAt start ops index item) :
    (channel.sentLog start ops index)[(channel.receivedLog start ops index).length]? =
      some item := by
  obtain ⟨op, hop, hitem⟩ := hreceived
  obtain ⟨kept, hbefore, _⟩ := channel.items_step (stateAt channel.step start ops index) op
  have hconserved := channel.conservation start ops index
  rw [hempty, List.nil_append, hbefore, hitem] at hconserved
  rw [hconserved, List.getElem?_append_right le_rfl, Nat.sub_self]
  rfl

/-- Every receipt has a sender: an earlier step that sent the item. Later receipts have later
senders. Assumes: the channel is empty at the start. -/
theorem sender_strictMono (hempty : channel.items start = []) :
    ∃ sender : ℕ → ℕ,
      StrictMonoOn sender {index | ∃ item, channel.ReceivedAt start ops index item} ∧
      ∀ index item, channel.ReceivedAt start ops index item →
        sender index < index ∧ channel.SentAt start ops (sender index) item := by
  classical
  have hsender : ∀ index, ∃ sender, ∀ item, channel.ReceivedAt start ops index item →
      sender < index ∧ channel.SentAt start ops sender item ∧
        (channel.sentLog start ops sender).length =
          (channel.receivedLog start ops index).length := by
    intro index
    by_cases hreceived : ∃ item, channel.ReceivedAt start ops index item
    · obtain ⟨item, hitem⟩ := hreceived
      obtain ⟨sender, hlt, hlength, hsent⟩ := exists_recordedAt channel.step channel.sent start ops
        (channel.sentLog_of_receivedAt start ops hempty hitem)
      refine ⟨sender, fun other hother ↦ ?_⟩
      have hsame := (channel.sentLog_of_receivedAt start ops hempty hitem).symm.trans
        (channel.sentLog_of_receivedAt start ops hempty hother)
      obtain rfl := Option.some.inj hsame
      exact ⟨hlt, hsent, hlength⟩
    · exact ⟨0, fun item hitem ↦ absurd ⟨item, hitem⟩ hreceived⟩
  choose sender hsent using hsender
  refine ⟨sender, ?_, fun index item hitem ↦ ⟨(hsent index item hitem).1, (hsent index item hitem).2.1⟩⟩
  rintro first ⟨item, hfirst⟩ second ⟨other, hsecond⟩ hlt
  -- The second receipt finds more items received, so its sender found more items sent.
  have hfewer : (channel.receivedLog start ops first).length <
      (channel.receivedLog start ops second).length := by
    have hgrown := (log_grows channel.step channel.received start ops hlt).length_le
    rw [log_succ_of_recordedAt _ _ _ _ hfirst, List.length_append, List.length_singleton] at hgrown
    exact hgrown
  rw [← (hsent first item hfirst).2.2, ← (hsent second other hsecond).2.2] at hfewer
  exact lt_of_length_log_lt _ _ _ _ hfewer

end Channel

end Run
