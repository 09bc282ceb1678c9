import InterFire.PromptRuns

/-!
# What becomes of a prompt

Runs of the calls of the prompt queue (`crates/interfire-daemon/src/prompts.rs`), in any order and
under a clock that does not go back. A prompt that is answered or expired is never touched again
(`get_step_of_settled`), and a prompt expires only when a reading of the clock is past its instant
(`lapsed_of_expired`). From these two, `fates_final` says that the fate of a prompt is final: one
answer counts, the later ones repeat it, and an answer in time is never refused.

The ids of prompts come from a counter that stops at the greatest number, and a prompt that is
created under an id replaces the one that had it. So the run has to stay below the number of ids:
`last_id_answered_twice` is a run of as many prompts as there are numbers.
-/

set_option autoImplicit false
set_option relaxedAutoImplicit false

namespace InterFire

open Run

namespace PromptQueue

/-- The housekeeping leaves a settled prompt. Assumes: prompts are stored under their ids, and the
prompt is no longer pending. -/
theorem get_expire_of_settled {queue : PromptQueue} (hkeyed : queue.Keyed) {id : UInt64}
    {prompt : Prompt} (hget : queue.prompts.get id = some prompt)
    (hsettled : prompt.state ≠ .pending) (now : Instant) :
    (queue.expire now).prompts.get id = some prompt := by
  have hkept : prompt.housekept now = prompt := by
    simp [Prompt.housekept, Prompt.Overdue, hsettled]
  rw [PromptQueue.get_expire_eq hkeyed, hget, Option.map_some, hkept]

theorem onceDenies_expire_subset (queue : PromptQueue) (now : Instant) :
    (queue.expire now).onceDenies ⊆ queue.onceDenies := by
  change (if queue.capacity < queue.onceDenies.card then ∅ else queue.onceDenies) ⊆ _
  split_ifs
  · exact Finset.empty_subset _
  · exact subset_rfl

end PromptQueue

/-- A call of the queue, with the readings of the clock that it makes. -/
inductive QueueOp
  | enqueue (expireNow createNow : Instant) (key : PromptKey)
  | answer (expireNow insertNow : Instant) (id : UInt64) (verdict : Verdict) (scope : RuleScope)
  | takeOnceAllow (expireNow checkNow : Instant) (key : PromptKey)
  | consumeOnceDeny (now : Instant) (key : PromptKey)
  | listPending (now : Instant)
  deriving DecidableEq, Repr

namespace QueueOp

/-- The readings of the clock, in the order in which they are made. -/
def readings : QueueOp → List Instant
  | .enqueue expireNow createNow _ => [expireNow, createNow]
  | .answer expireNow insertNow _ _ _ => [expireNow, insertNow]
  | .takeOnceAllow expireNow checkNow _ => [expireNow, checkNow]
  | .consumeOnceDeny now _ => [now]
  | .listPending now => [now]

/-- The reading of the housekeeping. -/
def now : QueueOp → Instant
  | .enqueue expireNow _ _ => expireNow
  | .answer expireNow _ _ _ _ => expireNow
  | .takeOnceAllow expireNow _ _ => expireNow
  | .consumeOnceDeny now _ => now
  | .listPending now => now

theorem now_mem_readings (op : QueueOp) : op.now ∈ op.readings := by
  cases op <;> exact List.mem_cons_self

/-- The queue after a call. -/
def step (queue : PromptQueue) : QueueOp → PromptQueue
  | .enqueue expireNow createNow key => (queue.enqueue expireNow createNow key).1
  | .answer expireNow insertNow id verdict scope =>
    (queue.answer expireNow insertNow id verdict scope).1
  | .takeOnceAllow expireNow checkNow key => (queue.takeOnceAllow expireNow checkNow key).1
  | .consumeOnceDeny now key => (queue.consumeOnceDeny now key).1
  | .listPending now => (queue.listPending now).1

/-- The id of the prompt that a call creates. -/
def created (queue : PromptQueue) : QueueOp → Option UInt64
  | .enqueue expireNow createNow key => (queue.enqueue expireNow createNow key).2.createdId
  | _ => none

variable (queue : PromptQueue)

/-! ### What a call does to the prompts -/

/-- A call creates no prompt and leaves the counter, or gives the next id to a prompt. -/
theorem created_cases (op : QueueOp) :
    (op.created queue = none ∧ (op.step queue).nextId = queue.nextId) ∨
      (op.created queue = some queue.nextId ∧
        (op.step queue).nextId = saturatingAdd queue.nextId 1) := by
  cases op with
  | enqueue expireNow createNow key =>
    rcases queue.enqueue_cases expireNow createNow key with ⟨hsame, hnone⟩ | ⟨-, -, hcreated⟩
    · have hnext : (queue.enqueue expireNow createNow key).1.nextId = queue.nextId := by
        rw [hsame, PromptQueue.nextId_expire]
      refine .inl ⟨?_, hnext⟩
      rw [created]
      cases houtcome : (queue.enqueue expireNow createNow key).2 with
      | created id => exact absurd houtcome (hnone id)
      | deduped id => rfl
      | full => rfl
    · refine .inr ⟨?_, ?_⟩
      · rw [created, hcreated]
        rfl
      · rw [step, hcreated]
        rfl
  | answer expireNow insertNow id verdict scope =>
    exact .inl ⟨rfl, (queue.frame_answer expireNow insertNow id verdict scope).2⟩
  | takeOnceAllow expireNow checkNow key => exact .inl ⟨rfl, rfl⟩
  | consumeOnceDeny now key => exact .inl ⟨rfl, rfl⟩
  | listPending now => exact .inl ⟨rfl, rfl⟩

/-- What a call leaves under an id: what the housekeeping leaves, a new prompt, or an answered
one. -/
theorem get_step (op : QueueOp) (id : UInt64) :
    (op.step queue).prompts.get id = (queue.expire op.now).prompts.get id ∨
    (op.created queue = some id ∧ ∃ prompt, (op.step queue).prompts.get id = some prompt ∧
      prompt.state = .pending ∧ prompt.id = id) ∨
    ∃ prompt verdict scope, (queue.expire op.now).prompts.get id = some prompt ∧
      prompt.state = .pending ∧
      (op.step queue).prompts.get id = some (prompt.answeredWith verdict scope) := by
  cases op with
  | enqueue expireNow createNow key =>
    rcases queue.enqueue_cases expireNow createNow key with ⟨hsame, -⟩ | ⟨-, -, hcreated⟩
    · exact .inl (congrArg (fun after ↦ after.prompts.get id) hsame)
    · rw [step, created, hcreated]
      by_cases hid : id = queue.nextId
      · subst hid
        exact .inr (.inl ⟨rfl, _, FiniteMap.get_insert_self .., rfl, rfl⟩)
      · exact .inl (FiniteMap.get_insert_of_ne _ hid _)
  | answer expireNow insertNow other verdict scope =>
    rw [step, now]
    rcases queue.answer_cases expireNow insertNow other verdict scope with
      hsame | ⟨prompt, hget, hpending, hrecorded⟩
    · exact .inl (congrArg (fun after ↦ after.prompts.get id) hsame)
    · rw [hrecorded, PromptQueue.get_record]
      split_ifs with hid
      · subst hid
        rw [hget]
        exact .inr (.inr ⟨prompt, verdict, scope, rfl, hpending, rfl⟩)
      · exact .inl rfl
  | takeOnceAllow expireNow checkNow key => exact .inl rfl
  | consumeOnceDeny now key => exact .inl rfl
  | listPending now => exact .inl rfl

variable {queue}

theorem keyed_step (hkeyed : queue.Keyed) (op : QueueOp) : (op.step queue).Keyed := by
  have hexpire := (queue.extends_expire op.now).keyed hkeyed
  intro id prompt hget
  rcases get_step queue op id with hsame | ⟨-, new, hnew, -, hid⟩ | ⟨before, _, _, hbefore, -, hafter⟩
  · exact hexpire id prompt (hsame ▸ hget)
  · obtain rfl := Option.some.inj (hnew.symm.trans hget)
    exact hid
  · obtain rfl := Option.some.inj (hafter.symm.trans hget)
    exact hexpire id before hbefore

/-- A prompt that is answered or expired is left as it is. Assumes: prompts are stored under their
ids, the prompt is no longer pending, and its id is not given again. -/
theorem get_step_of_settled (hkeyed : queue.Keyed) {op : QueueOp} {id : UInt64} {prompt : Prompt}
    (hget : queue.prompts.get id = some prompt) (hsettled : prompt.state ≠ .pending)
    (hnew : op.created queue ≠ some id) : (op.step queue).prompts.get id = some prompt := by
  have hexpire := PromptQueue.get_expire_of_settled hkeyed hget hsettled op.now
  rcases get_step queue op id with hsame | ⟨hcreated, -⟩ | ⟨before, _, _, hbefore, hpending, -⟩
  · rw [hsame, hexpire]
  · exact absurd hcreated hnew
  · obtain rfl := Option.some.inj (hexpire.symm.trans hbefore)
    exact absurd hpending hsettled

/-- An expired prompt after a call was expired before it, or its instant is past. Assumes: prompts
are stored under their ids, and the prompt is expired after the call. -/
theorem expired_of_step (hkeyed : queue.Keyed) {op : QueueOp} {id : UInt64} {prompt : Prompt}
    (hget : (op.step queue).prompts.get id = some prompt) (hexpired : prompt.state = .expired) :
    queue.prompts.get id = some prompt ∨ prompt.expiresAt < op.now := by
  rcases get_step queue op id with hsame | ⟨-, new, hnew, hpending, -⟩ | ⟨before, _, _, -, -, hafter⟩
  · rw [hget, PromptQueue.get_expire_eq hkeyed] at hsame
    obtain ⟨before, hbefore, rfl⟩ := Option.map_eq_some_iff.mp hsame.symm
    by_cases hoverdue : before.Overdue op.now
    · rw [Prompt.housekept, if_pos hoverdue]
      simp only [Prompt.Overdue, Bool.and_eq_true, decide_eq_true_eq] at hoverdue
      exact .inr hoverdue.2
    · rw [Prompt.housekept, if_neg hoverdue]
      exact .inl hbefore
  · obtain rfl := Option.some.inj (hnew.symm.trans hget)
    rw [hpending] at hexpired
    cases hexpired
  · obtain rfl := Option.some.inj (hafter.symm.trans hget)
    cases hexpired

end QueueOp

/-! ### Runs -/

section Runs

variable (start : PromptQueue) (ops : List QueueOp)

/-- The queue before the call at an index. -/
def queueAt (index : ℕ) : PromptQueue := stateAt QueueOp.step start ops index

/-- How many prompts a run has created before an index. -/
def createdBefore (index : ℕ) : ℕ := (log QueueOp.step QueueOp.created start ops index).length

/-- The call at an index answers the prompt of an id, and gets a reply. -/
def RepliedAt (index : ℕ) (id : UInt64) (reply : Except AnswerError Answered) : Prop :=
  ∃ expireNow insertNow verdict scope,
    ops[index]? = some (.answer expireNow insertNow id verdict scope) ∧
    ((queueAt start ops index).answer expireNow insertNow id verdict scope).2 = reply

/-- The call at an index leaves no token that was not there before it. -/
def GrantsNothing (index : ℕ) : Prop :=
  PromptQueue.TokensLe (queueAt start ops (index + 1)) (queueAt start ops index) ∧
    (queueAt start ops (index + 1)).onceDenies ⊆ (queueAt start ops index).onceDenies

/-- The fate of the prompts of an id is final along a run. -/
structure FateFinal (id : UInt64) : Prop where
  /-- At most one answer is the first one. -/
  once : ∀ first second answer other, RepliedAt start ops first id (.ok answer) →
    answer.duplicate = false → RepliedAt start ops second id (.ok other) →
    other.duplicate = false → first = second
  /-- Every later answer repeats the first one and leaves no token. -/
  repeats : ∀ first later answer reply, first < later → RepliedAt start ops first id (.ok answer) →
    answer.duplicate = false → RepliedAt start ops later id reply →
    reply = .ok { answer with duplicate := true } ∧ GrantsNothing start ops later
  /-- A late answer stays late. -/
  late : ∀ first later reply, first < later → RepliedAt start ops first id (.error .expired) →
    RepliedAt start ops later id reply → reply = .error .expired
  /-- An answered prompt never expires. -/
  answered : ∀ index later prompt, index ≤ later →
    (queueAt start ops index).prompts.get id = some prompt → prompt.state = .answered →
    (queueAt start ops later).prompts.get id = some prompt
  /-- An answer in time to a prompt that is not answered yet is the first one. -/
  inTime : ∀ index prompt expireNow insertNow verdict scope,
    ops[index]? = some (.answer expireNow insertNow id verdict scope) →
    (queueAt start ops index).prompts.get id = some prompt → prompt.state ≠ .answered →
    expireNow ≤ prompt.expiresAt →
    RepliedAt start ops index id (.ok ⟨id, prompt.key, verdict, scope, false⟩)

variable {start ops}

theorem queueAt_succ {index : ℕ} {op : QueueOp} (hop : ops[index]? = some op) :
    queueAt start ops (index + 1) = op.step (queueAt start ops index) :=
  stateAt_succ QueueOp.step start ops hop

theorem createdBefore_succ {index : ℕ} {op : QueueOp} (hop : ops[index]? = some op) :
    createdBefore start ops (index + 1) = createdBefore start ops index +
      (op.created (queueAt start ops index)).toList.length := by
  simp [createdBefore, log, hop, queueAt]

theorem keyed_queueAt (hkeyed : start.Keyed) (index : ℕ) : (queueAt start ops index).Keyed :=
  stateAt_invariant QueueOp.step start ops PromptQueue.Keyed hkeyed
    (fun _ op hbefore ↦ QueueOp.keyed_step hbefore op) index

/-- The prompts are numbered from one, and the counter stops at the greatest number. Assumes: the
start is numbered from one and has no prompt. -/
theorem numbered_queueAt (ops : List QueueOp) (hempty : ∀ id, start.prompts.get id = none)
    (hone : start.nextId = 1) (index : ℕ) :
    (queueAt start ops index).nextId.toNat =
        min (createdBefore start ops index + 1) (2 ^ 64 - 1) ∧
      ∀ id prompt, (queueAt start ops index).prompts.get id = some prompt →
        id.toNat ≤ createdBefore start ops index := by
  induction index with
  | zero =>
    refine ⟨?_, fun id prompt hget ↦ ?_⟩
    · change start.nextId.toNat = 1
      rw [hone]
      rfl
    · change start.prompts.get id = some prompt at hget
      rw [hempty] at hget
      cases hget
  | succ index ih =>
    cases hop : ops[index]? with
    | none =>
      have hstate : queueAt start ops (index + 1) = queueAt start ops index :=
        stateAt_succ_of_none QueueOp.step start ops hop
      have hcount : createdBefore start ops (index + 1) = createdBefore start ops index := by
        simp [createdBefore, log, hop]
      rw [hstate, hcount]
      exact ih
    | some op =>
      obtain ⟨hnext, hids⟩ := ih
      rw [queueAt_succ hop, createdBefore_succ hop]
      -- A prompt that the call did not create was there before it.
      have hold : ∀ id prompt, (op.step (queueAt start ops index)).prompts.get id = some prompt →
          op.created (queueAt start ops index) = some id ∨
            id.toNat ≤ createdBefore start ops index := by
        intro id prompt hget
        rcases QueueOp.get_step _ op id with hsame | ⟨hcreated, -⟩ | ⟨before, _, _, hbefore, -, -⟩
        · obtain ⟨before, hbefore, -⟩ := PromptQueue.exists_of_get_expire (hsame ▸ hget)
          exact .inr (hids id before hbefore)
        · exact .inl hcreated
        · obtain ⟨earlier, hearlier, -⟩ := PromptQueue.exists_of_get_expire hbefore
          exact .inr (hids id earlier hearlier)
      rcases QueueOp.created_cases (queueAt start ops index) op with ⟨hnone, hsame⟩ | ⟨hnew, hgrown⟩
      · rw [hnone, hsame]
        refine ⟨hnext, fun id prompt hget ↦ ?_⟩
        have hbefore := hold id prompt hget
        rw [hnone] at hbefore
        exact hbefore.resolve_left (by simp)
      · have hgrown' := toNat_saturatingAdd_one_eq (queueAt start ops index).nextId
        rw [hnew, hgrown, Option.toList_some, List.length_singleton]
        refine ⟨by omega, fun id prompt hget ↦ ?_⟩
        rcases hold id prompt hget with hid | hle
        · rw [hnew] at hid
          rw [← Option.some.inj hid]
          omega
        · omega

/-- The id of a new prompt is free. Assumes: the start is numbered from one and has no prompt, and
the run creates fewer prompts than there are numbers. -/
theorem fresh_of_few (hempty : ∀ id, start.prompts.get id = none) (hone : start.nextId = 1)
    (hfew : createdBefore start ops ops.length < 2 ^ 64) {index : ℕ} {op : QueueOp}
    (hop : ops[index]? = some op) {id : UInt64} {prompt : Prompt}
    (hget : (queueAt start ops index).prompts.get id = some prompt) :
    op.created (queueAt start ops index) ≠ some id := by
  intro hcreated
  obtain ⟨hnext, hids⟩ := numbered_queueAt ops hempty hone index
  have hlt : index < ops.length := (List.getElem?_eq_some_iff.mp hop).1
  have hgrows := (log_grows QueueOp.step QueueOp.created start ops
    (Nat.succ_le_of_lt hlt)).length_le
  have hcount : createdBefore start ops (index + 1) = createdBefore start ops index +
      (op.created (queueAt start ops index)).toList.length := createdBefore_succ hop
  have hafter : createdBefore start ops (index + 1) ≤ createdBefore start ops ops.length := hgrows
  rw [hcreated, Option.toList_some, List.length_singleton] at hcount
  rcases QueueOp.created_cases (queueAt start ops index) op with ⟨hnone, -⟩ | ⟨hnew, -⟩
  · cases hnone.symm.trans hcreated
  · obtain rfl := Option.some.inj (hnew.symm.trans hcreated)
    have hle := hids _ prompt hget
    omega

/-- An expired prompt is past its instant: an earlier housekeeping read a later one. Assumes: prompts
are stored under their ids at the start, where there is none, and the prompt is expired. -/
theorem lapsed_of_expired (hempty : ∀ id, start.prompts.get id = none) {index : ℕ} {id : UInt64}
    {prompt : Prompt} (hget : (queueAt start ops index).prompts.get id = some prompt)
    (hexpired : prompt.state = .expired) :
    ∃ earlier < index, ∃ op, ops[earlier]? = some op ∧ prompt.expiresAt < op.now := by
  have hkeyed : start.Keyed := fun id prompt hget ↦ by cases (hempty id).symm.trans hget
  induction index with
  | zero => cases (hempty id).symm.trans hget
  | succ index ih =>
    cases hop : ops[index]? with
    | none =>
      have hstate : queueAt start ops (index + 1) = queueAt start ops index :=
        stateAt_succ_of_none QueueOp.step start ops hop
      obtain ⟨earlier, hlt, hearlier⟩ := ih (hstate ▸ hget)
      exact ⟨earlier, by omega, hearlier⟩
    | some op =>
      rw [queueAt_succ hop] at hget
      rcases QueueOp.expired_of_step (keyed_queueAt hkeyed index) hget hexpired with hbefore | hlate
      · obtain ⟨earlier, hlt, hearlier⟩ := ih hbefore
        exact ⟨earlier, by omega, hearlier⟩
      · exact ⟨index, by omega, op, hop, hlate⟩

/-- A prompt that is answered or expired stays as it is. Assumes: ids are given once, and prompts are
stored under them. -/
theorem settled_stays (hkeyed : start.Keyed)
    (hfresh : ∀ index op id prompt, ops[index]? = some op →
      (queueAt start ops index).prompts.get id = some prompt →
      op.created (queueAt start ops index) ≠ some id)
    {index later : ℕ} (hle : index ≤ later) {id : UInt64} {prompt : Prompt}
    (hget : (queueAt start ops index).prompts.get id = some prompt)
    (hsettled : prompt.state ≠ .pending) :
    (queueAt start ops later).prompts.get id = some prompt := by
  refine stateAt_induction QueueOp.step start ops
    (fun queue ↦ queue.prompts.get id = some prompt) hget (fun between _ _ op hop hbefore ↦ ?_)
    later hle le_rfl
  exact QueueOp.get_step_of_settled (keyed_queueAt hkeyed between) hbefore hsettled
    (hfresh between op id prompt hop hbefore)

/-- A first answer leaves the prompt answered with what it says. Assumes: the answer is the first
one. -/
theorem answered_of_first {index : ℕ} {id : UInt64} {answer : Answered}
    (hreply : RepliedAt start ops index id (.ok answer)) (hfirst : answer.duplicate = false) :
    ∃ prompt, (queueAt start ops (index + 1)).prompts.get id = some prompt ∧
      prompt.state = .answered ∧ prompt.answerVerdict = some answer.verdict ∧
      prompt.answerScope = some answer.scope ∧ prompt.key = answer.key ∧ answer.id = id := by
  obtain ⟨expireNow, insertNow, verdict, scope, hop, hanswer⟩ := hreply
  have hstep : queueAt start ops (index + 1) =
      ((queueAt start ops index).answer expireNow insertNow id verdict scope).1 :=
    queueAt_succ hop
  cases hget : ((queueAt start ops index).expire expireNow).prompts.get id with
  | none =>
    rw [PromptQueue.answer_of_missing hget] at hanswer
    cases hanswer
  | some prompt =>
    cases hstate : prompt.state with
    | expired =>
      rw [PromptQueue.answer_of_expired hget hstate] at hanswer
      cases hanswer
    | answered =>
      rw [PromptQueue.answer_of_answered hget hstate] at hanswer
      obtain rfl := Except.ok.inj hanswer
      cases hfirst
    | pending =>
      rw [PromptQueue.answer_of_pending hget hstate] at hanswer hstep
      obtain rfl := Except.ok.inj hanswer
      refine ⟨prompt.answeredWith verdict scope, ?_, rfl, rfl, rfl, rfl, rfl⟩
      rw [hstep, PromptQueue.get_record, if_pos rfl, hget]
      rfl

/-- An answer that comes late leaves the prompt expired. Assumes: it comes late. -/
theorem expired_of_late {index : ℕ} {id : UInt64}
    (hreply : RepliedAt start ops index id (.error .expired)) :
    ∃ prompt, (queueAt start ops (index + 1)).prompts.get id = some prompt ∧
      prompt.state = .expired := by
  obtain ⟨expireNow, insertNow, verdict, scope, hop, hanswer⟩ := hreply
  have hstep : queueAt start ops (index + 1) =
      ((queueAt start ops index).answer expireNow insertNow id verdict scope).1 :=
    queueAt_succ hop
  cases hget : ((queueAt start ops index).expire expireNow).prompts.get id with
  | none =>
    rw [PromptQueue.answer_of_missing hget] at hanswer
    cases hanswer
  | some prompt =>
    cases hstate : prompt.state with
    | expired =>
      rw [PromptQueue.answer_of_expired hget hstate] at hstep
      exact ⟨prompt, by rw [hstep, hget], hstate⟩
    | answered =>
      rw [PromptQueue.answer_of_answered hget hstate] at hanswer
      cases hanswer
    | pending =>
      rw [PromptQueue.answer_of_pending hget hstate] at hanswer
      cases hanswer

/-- In every run of calls from the empty queue under a clock that does not go back, the fate of every
prompt is final. Assumes: the clock, and that the run creates fewer prompts than there are
numbers. -/
theorem fates_final (capacity : ℕ) (hcapacity : 0 < capacity) (ttl : Duration)
    (ops : List QueueOp) (hclock : ClockForward QueueOp.readings ops)
    (hfew : createdBefore (.new capacity hcapacity ttl) ops ops.length < 2 ^ 64) (id : UInt64) :
    FateFinal (.new capacity hcapacity ttl) ops id := by
  have hempty : ∀ id, (PromptQueue.new capacity hcapacity ttl).prompts.get id = none :=
    fun id ↦ FiniteMap.get_empty id
  have hkeyed : (PromptQueue.new capacity hcapacity ttl).Keyed :=
    fun id prompt hget ↦ by cases (hempty id).symm.trans hget
  have hfresh : ∀ index op id prompt, ops[index]? = some op →
      (queueAt (.new capacity hcapacity ttl) ops index).prompts.get id = some prompt →
      op.created (queueAt (.new capacity hcapacity ttl) ops index) ≠ some id :=
    fun _ _ _ _ hop hget ↦ fresh_of_few hempty rfl hfew hop hget
  have hrepeats : ∀ first later answer reply, first < later →
      RepliedAt (.new capacity hcapacity ttl) ops first id (.ok answer) →
      answer.duplicate = false → RepliedAt (.new capacity hcapacity ttl) ops later id reply →
      reply = .ok { answer with duplicate := true } ∧
        GrantsNothing (.new capacity hcapacity ttl) ops later := by
    intro first later answer reply hlt hanswer hfirst hlater
    obtain ⟨prompt, hget, hanswered, hverdict, hscope, hkey, rfl⟩ := answered_of_first hanswer hfirst
    have hsettled : prompt.state ≠ .pending := by simp [hanswered]
    have hstays := settled_stays hkeyed hfresh (Nat.succ_le_of_lt hlt) hget hsettled
    obtain ⟨expireNow, insertNow, verdict, scope, hop, hreply⟩ := hlater
    have hlive := PromptQueue.get_expire_of_settled (keyed_queueAt hkeyed later) hstays hsettled expireNow
    have hstep : queueAt (.new capacity hcapacity ttl) ops (later + 1) =
        QueueOp.step (queueAt (.new capacity hcapacity ttl) ops later)
          (.answer expireNow insertNow answer.id verdict scope) := queueAt_succ hop
    have hrepeated := PromptQueue.answer_of_answered hlive hanswered insertNow verdict scope
    rw [QueueOp.step, hrepeated] at hstep
    rw [hrepeated, hverdict, hscope, hkey] at hreply
    refine ⟨hreply.symm, ?_, ?_⟩
    · rw [hstep]
      exact PromptQueue.tokensLe_expire _ expireNow
    · rw [hstep]
      exact PromptQueue.onceDenies_expire_subset _ expireNow
  have hnone : ∀ first second answer other, first < second →
      RepliedAt (.new capacity hcapacity ttl) ops first id (.ok answer) →
      answer.duplicate = false →
      RepliedAt (.new capacity hcapacity ttl) ops second id (.ok other) →
      other.duplicate ≠ false := by
    intro first second answer other hlt hanswer hfirst hother
    obtain ⟨hreply, -⟩ := hrepeats first second answer _ hlt hanswer hfirst hother
    rw [Except.ok.inj hreply]
    simp
  refine ⟨?_, hrepeats, ?_, ?_, ?_⟩
  · intro first second answer other hanswer hfirst hother hsecond
    rcases Nat.lt_trichotomy first second with hlt | heq | hgt
    · exact absurd hsecond (hnone first second answer other hlt hanswer hfirst hother)
    · exact heq
    · exact absurd hfirst (hnone second first other answer hgt hother hsecond hanswer)
  · intro first later reply hlt hlate hlater
    obtain ⟨prompt, hget, hexpired⟩ := expired_of_late hlate
    have hsettled : prompt.state ≠ .pending := by simp [hexpired]
    have hstays := settled_stays hkeyed hfresh (Nat.succ_le_of_lt hlt) hget hsettled
    obtain ⟨expireNow, insertNow, verdict, scope, -, hreply⟩ := hlater
    have hlive := PromptQueue.get_expire_of_settled (keyed_queueAt hkeyed later) hstays hsettled expireNow
    rw [PromptQueue.answer_of_expired hlive hexpired] at hreply
    exact hreply.symm
  · intro index later prompt hle hget hanswered
    exact settled_stays hkeyed hfresh hle hget (by simp [hanswered])
  · intro index prompt expireNow insertNow verdict scope hop hget hunanswered htime
    -- An expired prompt would be past its instant at an earlier reading already.
    have hpending : prompt.state = .pending := by
      cases hstate : prompt.state with
      | pending => rfl
      | answered => exact absurd hstate hunanswered
      | expired =>
        obtain ⟨earlier, hlt, op, hearlier, hpast⟩ := lapsed_of_expired hempty hget hstate
        have hforward := hclock.le hlt hearlier hop op.now_mem_readings List.mem_cons_self
        exact absurd htime (not_le.mpr (hpast.trans_le hforward))
    have hlive := (PromptQueue.pending_expire_iff (keyed_queueAt hkeyed index) expireNow id
      prompt).mpr ⟨hget, hpending, htime⟩
    refine ⟨expireNow, insertNow, verdict, scope, hop, ?_⟩
    rw [PromptQueue.answer_of_pending hlive.1 hlive.2]

theorem answered_curl_final :
    let ops : List QueueOp := [.enqueue 0 1 ⟨"/usr/bin/curl", 0, 443⟩, .answer 60 61 1 .allow .once,
      .answer 90 90 1 .deny .permanent]
    ClockForward QueueOp.readings ops ∧
      createdBefore (.new 1 Nat.one_pos 60) ops ops.length < 2 ^ 64 ∧
      FateFinal (.new 1 Nat.one_pos 60) ops 1 := by
  intro ops
  have hclock : ClockForward QueueOp.readings ops := by decide
  have hfew : createdBefore (.new 1 Nat.one_pos 60) ops ops.length < 2 ^ 64 :=
    (length_log_le QueueOp.step QueueOp.created _ ops ops.length).trans_lt (by decide)
  exact ⟨hclock, hfew, fates_final 1 Nat.one_pos 60 ops hclock hfew 1⟩

end Runs

/-! ### Asking and answering -/

namespace PromptQueue

/-- No prompt is pending. -/
def Idle (queue : PromptQueue) : Prop := ∀ key, queue.pendingByKey.get key = none

theorem len_of_idle {queue : PromptQueue} (hidle : queue.Idle) : queue.pendingByKey.len = 0 := by
  rw [FiniteMap.len, List.length_eq_zero_iff, List.eq_nil_iff_forall_not_mem]
  intro key hmem
  rw [FiniteMap.mem_keys_iff, hidle key] at hmem
  cases hmem

theorem idle_expire {queue : PromptQueue} (hidle : queue.Idle) (now : Instant) :
    (queue.expire now).Idle := by
  intro key
  rw [get_pendingByKey_expire, hidle key, ite_self]

theorem pendingByKey_leaveToken (queue : PromptQueue) (key : PromptKey) (verdict : Verdict)
    (scope : RuleScope) (insertNow : Instant) :
    (queue.leaveToken key verdict scope insertNow).pendingByKey = queue.pendingByKey := by
  unfold leaveToken
  split <;> rfl

variable {queue : PromptQueue} (now : Instant) (key : PromptKey)

/-- An idle queue creates a prompt for a key. Assumes: it is idle. -/
theorem enqueue_of_idle (hidle : queue.Idle) :
    queue.enqueue now now key =
      ((queue.expire now).create now key, .created queue.nextId) := by
  have hlive := idle_expire hidle now
  have hroom : ¬ (queue.expire now).capacity ≤ (queue.expire now).pendingByKey.len := by
    rw [len_of_idle hlive, not_le]
    exact queue.capacity_pos
  simp only [enqueue, hlive key, if_neg hroom]
  rfl

/-- The prompt that an idle queue has just created is pending. Assumes: it is idle, and prompts are
stored under their ids. -/
theorem get_created (hkeyed : queue.Keyed) (hidle : queue.Idle) :
    (((queue.enqueue now now key).1).expire now).prompts.get queue.nextId =
      some (queue.newPrompt now key) := by
  have hafter : (queue.enqueue now now key).1.Keyed :=
    QueueOp.keyed_step hkeyed (.enqueue now now key)
  refine ((pending_expire_iff hafter now queue.nextId (queue.newPrompt now key)).mpr ?_).1
  refine ⟨?_, rfl, Nat.le_add_right now queue.ttl⟩
  rw [enqueue_of_idle now key hidle]
  exact FiniteMap.get_insert_self ..

/-- A prompt that is asked and answered at one instant: the answer is the first one, and the queue is
idle again. Assumes: it is idle, and prompts are stored under their ids. -/
theorem answer_of_idle (hkeyed : queue.Keyed) (hidle : queue.Idle) (verdict : Verdict)
    (scope : RuleScope) :
    (queue.enqueue now now key).1.answer now now queue.nextId verdict scope =
      ((((queue.enqueue now now key).1).expire now).record now queue.nextId key verdict scope,
        .ok ⟨queue.nextId, key, verdict, scope, false⟩) :=
  answer_of_pending (get_created now key hkeyed hidle) rfl now verdict scope

theorem idle_of_answered (hidle : queue.Idle) (verdict : Verdict) (scope : RuleScope) :
    ((((queue.enqueue now now key).1).expire now).record now queue.nextId key verdict scope).Idle
      := by
  intro other
  rw [record, pendingByKey_leaveToken, FiniteMap.get_remove]
  split_ifs with hother
  · rfl
  · rw [get_pendingByKey_expire, enqueue_of_idle now key hidle]
    change (if _ then none else
      ((queue.expire now).pendingByKey.insert key queue.nextId).get other) = none
    rw [FiniteMap.get_insert_of_ne _ hother, idle_expire hidle now other, ite_self]

end PromptQueue

/-- The ids in the order in which the counter gives them. -/
def nthId : ℕ → UInt64
  | 0 => 1
  | count + 1 => saturatingAdd (nthId count) 1

theorem toNat_nthId (count : ℕ) : (nthId count).toNat = min (count + 1) (2 ^ 64 - 1) := by
  induction count with
  | zero => rfl
  | succ count ih =>
    rw [nthId, toNat_saturatingAdd_one_eq, ih]
    omega

section Asked

variable (keys : ℕ → PromptKey) (verdict : Verdict) (scope : RuleScope)

/-- A run that asks about one key after another and answers each of them at once. -/
def askedRun : ℕ → List QueueOp
  | 0 => []
  | count + 1 =>
    askedRun count ++
      [.enqueue 0 0 (keys count), .answer 0 0 (nthId count) verdict scope]

theorem length_askedRun (count : ℕ) : (askedRun keys verdict scope count).length = 2 * count := by
  induction count with
  | zero => rfl
  | succ count ih =>
    rw [askedRun, List.length_append, ih]
    rfl

/-- A longer run of questions starts with a shorter one. Assumes: it is longer. -/
theorem askedRun_grows {count more : ℕ} (hle : count ≤ more) :
    askedRun keys verdict scope count <+: askedRun keys verdict scope more := by
  induction more, hle using Nat.le_induction with
  | base => exact List.prefix_rfl
  | succ more _ ih => exact ih.trans (List.prefix_append _ _)

/-- The clock of the run stands still. -/
theorem clockForward_askedRun (count : ℕ) :
    ClockForward QueueOp.readings (askedRun keys verdict scope count) := by
  have hzero : ∀ reading ∈ (askedRun keys verdict scope count).flatMap QueueOp.readings,
      reading = 0 := by
    induction count with
    | zero => rintro reading ⟨⟩
    | succ count ih =>
      intro reading hmem
      rw [askedRun, List.flatMap_append, List.mem_append] at hmem
      rcases hmem with hold | hnew
      · exact ih reading hold
      · simpa [QueueOp.readings] using hnew
  refine List.pairwise_of_forall_mem_list fun first hfirst second hsecond ↦ ?_
  rw [hzero first hfirst, hzero second hsecond]

variable {start : PromptQueue}

/-- The queue after a number of questions. -/
def asked (start : PromptQueue) (count : ℕ) : PromptQueue :=
  (askedRun keys verdict scope count).foldl QueueOp.step start

theorem asked_succ (count : ℕ) :
    asked keys verdict scope start (count + 1) =
      (((asked keys verdict scope start count).enqueue 0 0 (keys count)).1.answer 0 0
        (nthId count) verdict scope).1 := by
  rw [asked, askedRun, List.foldl_append]
  rfl

/-- The queue before the question of a number, in a longer run. Assumes: the run is longer. -/
theorem queueAt_askedRun {count more : ℕ} (hle : count ≤ more) :
    queueAt start (askedRun keys verdict scope more) (2 * count) =
      asked keys verdict scope start count := by
  have htake := List.prefix_iff_eq_take.mp (askedRun_grows keys verdict scope hle)
  rw [length_askedRun] at htake
  rw [queueAt, stateAt, ← htake, asked]

/-- Between the questions the queue is idle, and the counter gives the ids in their order. Assumes:
this holds at the start. -/
theorem asked_idle (hkeyed : start.Keyed) (hidle : start.Idle) (hone : start.nextId = 1)
    (count : ℕ) :
    (asked keys verdict scope start count).Keyed ∧ (asked keys verdict scope start count).Idle ∧
      (asked keys verdict scope start count).nextId = nthId count := by
  induction count with
  | zero => exact ⟨hkeyed, hidle, hone⟩
  | succ count ih =>
    obtain ⟨hbefore, hquiet, hnext⟩ := ih
    have hanswer := PromptQueue.answer_of_idle 0 (keys count) hbefore hquiet verdict scope
    rw [hnext] at hanswer
    rw [asked_succ]
    refine ⟨?_, ?_, ?_⟩
    · exact QueueOp.keyed_step (QueueOp.keyed_step hbefore (.enqueue 0 0 (keys count)))
        (.answer 0 0 (nthId count) verdict scope)
    · rw [hanswer, ← hnext]
      exact PromptQueue.idle_of_answered 0 (keys count) hquiet verdict scope
    · rw [(PromptQueue.frame_answer ..).2, PromptQueue.enqueue_of_idle 0 (keys count) hquiet]
      change saturatingAdd (asked keys verdict scope start count).nextId 1 = nthId (count + 1)
      rw [hnext]
      rfl

/-- Every answer of the run is a first one. Assumes: the start is idle and numbered from one. -/
theorem repliedAt_askedRun (hkeyed : start.Keyed) (hidle : start.Idle) (hone : start.nextId = 1)
    {count more : ℕ} (hlt : count < more) :
    RepliedAt start (askedRun keys verdict scope more) (2 * count + 1) (nthId count)
      (.ok ⟨nthId count, keys count, verdict, scope, false⟩) := by
  obtain ⟨hbefore, hquiet, hnext⟩ := asked_idle keys verdict scope hkeyed hidle hone count
  obtain ⟨rest, hrest⟩ := askedRun_grows keys verdict scope (Nat.succ_le_of_lt hlt)
  have hlength := length_askedRun keys verdict scope count
  have hasked : (askedRun keys verdict scope more)[2 * count]? =
      some (.enqueue 0 0 (keys count)) := by
    rw [← hrest, askedRun, List.append_assoc, List.getElem?_append_right (by omega), hlength]
    simp
  have hanswered : (askedRun keys verdict scope more)[2 * count + 1]? =
      some (.answer 0 0 (nthId count) verdict scope) := by
    rw [← hrest, askedRun, List.append_assoc, List.getElem?_append_right (by omega), hlength]
    simp
  refine ⟨0, 0, verdict, scope, hanswered, ?_⟩
  rw [queueAt_succ hasked, queueAt_askedRun keys verdict scope hlt.le, QueueOp.step]
  have hanswer := PromptQueue.answer_of_idle 0 (keys count) hbefore hquiet verdict scope
  rw [hnext] at hanswer
  rw [hanswer]

end Asked

/-- In a run of as many prompts as there are numbers, the last two prompts have the same id, and both
get a first answer. -/
theorem last_id_answered_twice :
    let start := PromptQueue.withDefaults
    let ops := askedRun (fun _ ↦ ⟨"/usr/bin/curl", 0, 443⟩) .allow .session (2 ^ 64)
    ClockForward QueueOp.readings ops ∧ ¬ FateFinal start ops (UInt64.ofNat (2 ^ 64 - 1)) := by
  intro start ops
  refine ⟨clockForward_askedRun .., fun hfinal ↦ ?_⟩
  have hkeyed : start.Keyed := fun id prompt hget ↦ by
    cases (FiniteMap.get_empty (ν := Prompt) id).symm.trans hget
  have hidle : start.Idle := fun key ↦ FiniteMap.get_empty key
  have hlast : (UInt64.ofNat (2 ^ 64 - 1)).toNat = 2 ^ 64 - 1 := rfl
  have hid : ∀ count, 2 ^ 64 - 2 ≤ count → nthId count = UInt64.ofNat (2 ^ 64 - 1) := by
    intro count hle
    rw [← UInt64.toNat_inj, toNat_nthId, hlast]
    omega
  have hreply : ∀ count, count < 2 ^ 64 → 2 ^ 64 - 2 ≤ count →
      RepliedAt start ops (2 * count + 1) (UInt64.ofNat (2 ^ 64 - 1))
        (.ok ⟨UInt64.ofNat (2 ^ 64 - 1), ⟨"/usr/bin/curl", 0, 443⟩, .allow, .session, false⟩) := by
    intro count hlt hle
    have hreplied := repliedAt_askedRun (fun _ ↦ ⟨"/usr/bin/curl", 0, 443⟩) .allow .session hkeyed
      hidle rfl hlt
    rw [hid count hle] at hreplied
    exact hreplied
  have hsame := hfinal.once _ _ _ _ (hreply (2 ^ 64 - 2) (by omega) le_rfl) rfl
    (hreply (2 ^ 64 - 1) (by omega) (by omega)) rfl
  omega

end InterFire
