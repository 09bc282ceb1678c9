import InterFire.PromptFates

/-!
# How much the prompt queue stores

The five collections of the queue along runs of its calls. The pending prompts are bounded by the
capacity, and so is the order, which every call filters down to the pending ids before it adds one;
a deny token more than the capacity makes the next housekeeping drop them all
(`sizes_bounded`). Nothing of this kind is done to the other two: a prompt is kept for good once it
is answered or expired, and an allow token for as long as it is fresh. So asking and answering
makes both of them as large as one likes (`len_onceAllows_asked`, `len_prompts_asked`), and the
queue has no bound whatever its capacity and its lifetime (`prompt_memory_unbounded`).
-/

set_option autoImplicit false
set_option relaxedAutoImplicit false

namespace InterFire

open Run

namespace PromptQueue

/-- No collection stores more than a number of entries. -/
structure Within (bound : ℕ) (queue : PromptQueue) : Prop where
  prompts : queue.prompts.len ≤ bound
  order : queue.order.length ≤ bound
  pendingByKey : queue.pendingByKey.len ≤ bound
  onceAllows : queue.onceAllows.len ≤ bound
  onceDenies : queue.onceDenies.card ≤ bound

/-- One number bounds the collections in every run from the empty queue. -/
def MemoryBounded (capacity : ℕ) (hcapacity : 0 < capacity) (ttl : Duration) (bound : ℕ) : Prop :=
  ∀ ops index, (queueAt (.new capacity hcapacity ttl) ops index).Within bound

/-! ### What grows -/

section Growth

variable (queue : PromptQueue)

/-- Nothing is overdue at the first instant. -/
theorem overdue_zero : queue.overdue 0 = [] := by
  rw [overdue, List.map_eq_nil_iff, List.filter_eq_nil_iff]
  intro prompt _
  simp [Prompt.Overdue]

theorem prompts_expire_zero : (queue.expire 0).prompts = queue.prompts := by
  change ((queue.overdue 0).foldl expirePrompt (queue.prompts, queue.pendingByKey)).1 = _
  rw [overdue_zero]
  rfl

theorem onceAllows_expire_zero : (queue.expire 0).onceAllows = queue.onceAllows := by
  change (queue.onceAllows.retain fun _ inserted ↦ decide (0 ≤ inserted + queue.ttl)) = _
  exact FiniteMap.retain_of_forall (fun _ _ ↦ decide_eq_true (Nat.zero_le _)) _

variable {queue} (key : PromptKey)

/-- Asking and answering with allow once adds the token of the key. Assumes: the queue is idle, and
prompts are stored under their ids. -/
theorem onceAllows_answer_of_idle (hkeyed : queue.Keyed) (hidle : queue.Idle) :
    ((queue.enqueue 0 0 key).1.answer 0 0 queue.nextId .allow .once).1.onceAllows =
      queue.onceAllows.insert key 0 := by
  have hcreated : (queue.enqueue 0 0 key).1.onceAllows = (queue.expire 0).onceAllows := by
    rw [enqueue_of_idle 0 key hidle]
    rfl
  have hleft : ∀ live : PromptQueue, (live.record 0 queue.nextId key .allow .once).onceAllows =
      live.onceAllows.insert key 0 := fun _ ↦ rfl
  rw [answer_of_idle 0 key hkeyed hidle, hleft, onceAllows_expire_zero, hcreated,
    onceAllows_expire_zero]

/-- Asking and answering adds the answered prompt. Assumes: the queue is idle, and prompts are stored
under their ids. -/
theorem prompts_answer_of_idle (hkeyed : queue.Keyed) (hidle : queue.Idle) :
    ((queue.enqueue 0 0 key).1.answer 0 0 queue.nextId .allow .once).1.prompts =
      queue.prompts.insert queue.nextId
        ((queue.newPrompt 0 key).answeredWith .allow .once) := by
  have hcreated : (queue.enqueue 0 0 key).1.prompts =
      (queue.expire 0).prompts.insert queue.nextId (queue.newPrompt 0 key) := by
    rw [enqueue_of_idle 0 key hidle]
    rfl
  have hleft : ∀ live : PromptQueue, (live.record 0 queue.nextId key .allow .once).prompts =
      live.prompts.update queue.nextId (Prompt.answeredWith .allow .once) := fun _ ↦ rfl
  rw [answer_of_idle 0 key hkeyed hidle, hleft, prompts_expire_zero, hcreated,
    prompts_expire_zero, FiniteMap.update, FiniteMap.get_insert_self]
  exact FiniteMap.insert_insert ..

end Growth

end PromptQueue

/-- As many keys as there are numbers. -/
def nthKey (index : ℕ) : PromptKey := ⟨String.ofList ('/' :: List.replicate index 'a'), 0, 443⟩

theorem nthKey_injective : Function.Injective nthKey := by
  intro first second hsame
  have hlists := congrArg (fun key ↦ key.executable.toList.length) hsame
  simpa [nthKey] using hlists

section Asked

variable {start : PromptQueue}

/-- The allow tokens after a number of questions that are answered with allow once. Assumes: the
start is idle and numbered from one, and has no token. -/
theorem len_onceAllows_asked (hkeyed : start.Keyed) (hidle : start.Idle) (hone : start.nextId = 1)
    (hnone : start.onceAllows = .empty) (count : ℕ) :
    (asked nthKey .allow .once start count).onceAllows.len = count ∧
      ∀ later, count ≤ later →
        (asked nthKey .allow .once start count).onceAllows.get (nthKey later) = none := by
  induction count with
  | zero =>
    change start.onceAllows.len = 0 ∧ ∀ later, 0 ≤ later → start.onceAllows.get _ = none
    rw [hnone]
    exact ⟨rfl, fun later _ ↦ FiniteMap.get_empty _⟩
  | succ count ih =>
    obtain ⟨hlen, hfree⟩ := ih
    obtain ⟨hbefore, hquiet, hnext⟩ := asked_idle nthKey .allow .once hkeyed hidle hone count
    have hallows : (asked nthKey .allow .once start (count + 1)).onceAllows =
        (asked nthKey .allow .once start count).onceAllows.insert (nthKey count) 0 := by
      rw [asked_succ, ← hnext]
      exact PromptQueue.onceAllows_answer_of_idle (nthKey count) hbefore hquiet
    rw [hallows, FiniteMap.len_insert_of_none (hfree count le_rfl), hlen]
    refine ⟨rfl, fun later hle ↦ ?_⟩
    have hne : nthKey later ≠ nthKey count := fun hsame ↦ by
      have hindex := nthKey_injective hsame
      omega
    rw [FiniteMap.get_insert_of_ne _ hne]
    exact hfree later (by omega)

/-- The prompts after a number of questions, as long as there are ids. Assumes: the start is idle and
numbered from one, and has no prompt. -/
theorem len_prompts_asked (hkeyed : start.Keyed) (hidle : start.Idle) (hone : start.nextId = 1)
    (hnone : start.prompts = .empty) {count : ℕ} (hfew : count < 2 ^ 64) :
    (asked nthKey .allow .once start count).prompts.len = count ∧
      ∀ later, count ≤ later → later < 2 ^ 64 - 1 →
        (asked nthKey .allow .once start count).prompts.get (nthId later) = none := by
  induction count with
  | zero =>
    change start.prompts.len = 0 ∧ ∀ later, 0 ≤ later → later < 2 ^ 64 - 1 →
      start.prompts.get _ = none
    rw [hnone]
    exact ⟨rfl, fun later _ _ ↦ FiniteMap.get_empty _⟩
  | succ count ih =>
    obtain ⟨hlen, hfree⟩ := ih (by omega)
    obtain ⟨hbefore, hquiet, hnext⟩ := asked_idle nthKey .allow .once hkeyed hidle hone count
    have hprompts := PromptQueue.prompts_answer_of_idle (nthKey count) hbefore hquiet
    rw [hnext, ← asked_succ] at hprompts
    rw [hprompts, FiniteMap.len_insert_of_none (hfree count le_rfl (by omega)), hlen]
    refine ⟨rfl, fun later hle hlt ↦ ?_⟩
    have hne : nthId later ≠ nthId count := fun hsame ↦ by
      have hnumber := congrArg UInt64.toNat hsame
      rw [toNat_nthId, toNat_nthId] at hnumber
      omega
    rw [FiniteMap.get_insert_of_ne _ hne]
    exact hfree later (by omega) hlt

end Asked

/-! ### What stays bounded -/

namespace PromptQueue

/-- The pending ids of the order have a key of their own in the index. Ids may repeat here, so this
is weaker than the index itself. -/
structure Slotted (queue : PromptQueue) : Prop where
  keyed : queue.Keyed
  covered : ∀ id prompt, queue.prompts.get id = some prompt → prompt.state = .pending →
    id ∈ queue.order
  slots : (queue.order.filter (isPending queue.prompts)).length ≤ queue.pendingByKey.len
  pending_le : queue.pendingByKey.len ≤ queue.capacity
  order_le : queue.order.length ≤ queue.capacity

variable {queue : PromptQueue}

theorem isPending_iff (prompts : FiniteMap UInt64 Prompt) (id : UInt64) :
    isPending prompts id = true ↔
      ∃ prompt, prompts.get id = some prompt ∧ prompt.state = .pending := by
  simp [isPending, Option.any_eq_true]

/-- No prompt is overdue twice. Assumes: prompts are stored under their ids. -/
theorem nodup_overdue (hkeyed : queue.Keyed) (now : Instant) :
    ((queue.overdue now).map Prod.fst).Nodup := by
  have hids : queue.prompts.values.map Prompt.id = queue.prompts.keys := by
    have hentries : queue.prompts.values.map Prompt.id = queue.prompts.entries.map Prod.fst := by
      rw [FiniteMap.values, List.map_map]
      refine List.map_congr_left fun binding hbinding ↦ ?_
      have hget := (queue.prompts.get_eq_some_iff_mem_entries binding.1 binding.2).mpr hbinding
      exact hkeyed binding.1 binding.2 hget
    rw [hentries, FiniteMap.entries, List.map_map]
    rfl
  have hmap : (queue.overdue now).map Prod.fst =
      (queue.prompts.values.filter fun prompt ↦ prompt.Overdue now).map Prompt.id := by
    rw [overdue, List.map_map]
    rfl
  rw [hmap]
  have hnodup := queue.prompts.nodup_keys
  rw [← hids] at hnodup
  exact hnodup.sublist (List.filter_sublist.map Prompt.id)

theorem len_le_foldl_expirePrompt (expired : List (UInt64 × PromptKey))
    (maps : FiniteMap UInt64 Prompt × FiniteMap PromptKey UInt64) :
    maps.2.len ≤ (expired.foldl expirePrompt maps).2.len + expired.length := by
  induction expired generalizing maps with
  | nil => exact le_rfl
  | cons first rest ih =>
    have hfirst : maps.2.len ≤ (expirePrompt maps first).2.len + 1 :=
      FiniteMap.len_le_remove maps.2 first.2
    have hrest := ih (expirePrompt maps first)
    rw [List.foldl_cons, List.length_cons]
    omega

/-- A pending id of the order after the housekeeping is a pending one before it that is not
overdue. Assumes: prompts are stored under their ids. -/
theorem isPending_expire (hkeyed : queue.Keyed) (now : Instant) (id : UInt64) :
    isPending (queue.expire now).prompts id =
      (isPending queue.prompts id && decide (id ∉ (queue.overdue now).map Prod.fst)) := by
  rw [Bool.eq_iff_iff, Bool.and_eq_true, decide_eq_true_eq, isPending_iff, isPending_iff]
  simp only [pending_expire_iff hkeyed]
  have hoverdue : ∀ prompt, queue.prompts.get id = some prompt →
      (id ∈ (queue.overdue now).map Prod.fst ↔ prompt.Overdue now) := by
    intro prompt hget
    rw [List.mem_map]
    constructor
    · rintro ⟨pair, hpair, rfl⟩
      obtain ⟨other, found, hfound, hlate, rfl⟩ := (queue.mem_overdue_iff now pair).mp hpair
      rw [hkeyed other found hfound] at hget
      obtain rfl := Option.some.inj (hget.symm.trans hfound)
      exact hlate
    · intro hlate
      exact ⟨_, (queue.mem_overdue_iff now _).mpr ⟨id, prompt, hget, hlate, rfl⟩,
        hkeyed id prompt hget⟩
  constructor
  · rintro ⟨prompt, hget, hpending, htime⟩
    refine ⟨⟨prompt, hget, hpending⟩, ?_⟩
    rw [hoverdue prompt hget]
    simp [Prompt.Overdue, hpending, htime]
  · rintro ⟨⟨prompt, hget, hpending⟩, htime⟩
    rw [hoverdue prompt hget] at htime
    refine ⟨prompt, hget, hpending, ?_⟩
    simpa [Prompt.Overdue, hpending] using htime

/-- The housekeeping leaves an order of pending ids, no more than there are keys. Assumes: the
slots. -/
theorem slotted_expire (hslotted : queue.Slotted) (now : Instant) :
    (queue.expire now).Slotted ∧
      (queue.expire now).order.length ≤ (queue.expire now).pendingByKey.len := by
  have hkeyed := (queue.extends_expire now).keyed hslotted.keyed
  have horder : (queue.expire now).order =
      queue.order.filter (isPending (queue.expire now).prompts) := rfl
  -- The overdue ids are in the order, each of them once at least.
  have hlate : (queue.overdue now).length ≤ ((queue.order.filter (isPending queue.prompts)).filter
      fun id ↦ decide (id ∈ (queue.overdue now).map Prod.fst)).length := by
    rw [← List.length_map Prod.fst]
    refine (nodup_overdue hslotted.keyed now).length_le_of_subset fun id hid ↦ ?_
    obtain ⟨pair, hpair, rfl⟩ := List.mem_map.mp hid
    obtain ⟨other, prompt, hget, hoverdue, rfl⟩ := (queue.mem_overdue_iff now pair).mp hpair
    rw [hslotted.keyed other prompt hget] at hid ⊢
    have hpending : prompt.state = .pending := by
      simp only [Prompt.Overdue, Bool.and_eq_true, decide_eq_true_eq] at hoverdue
      exact hoverdue.1
    refine List.mem_filter.mpr ⟨List.mem_filter.mpr ⟨?_, ?_⟩, decide_eq_true hid⟩
    · exact hslotted.covered other prompt hget hpending
    · exact (isPending_iff _ _).mpr ⟨prompt, hget, hpending⟩
  have hsplit := List.length_eq_length_filter_add (l := queue.order.filter (isPending queue.prompts))
    fun id ↦ decide (id ∈ (queue.overdue now).map Prod.fst)
  have hkept : (queue.expire now).order =
      (queue.order.filter (isPending queue.prompts)).filter
        fun id ↦ !decide (id ∈ (queue.overdue now).map Prod.fst) := by
    rw [horder, List.filter_filter]
    refine List.filter_congr fun id _ ↦ ?_
    rw [isPending_expire hslotted.keyed, Bool.and_comm]
    simp
  have hfreed : queue.pendingByKey.len ≤
      (queue.expire now).pendingByKey.len + (queue.overdue now).length :=
    len_le_foldl_expirePrompt (queue.overdue now) (queue.prompts, queue.pendingByKey)
  have hslots := hslotted.slots
  have hshort : (queue.expire now).order.length ≤ (queue.expire now).pendingByKey.len := by
    rw [hkept]
    omega
  refine ⟨⟨hkeyed, ?_, ?_, ?_, ?_⟩, hshort⟩
  · intro id prompt hget hpending
    obtain ⟨hbefore, -, -⟩ := (pending_expire_iff hslotted.keyed now id prompt).mp ⟨hget, hpending⟩
    rw [horder]
    exact List.mem_filter.mpr ⟨hslotted.covered id prompt hbefore hpending,
      (isPending_iff _ _).mpr ⟨prompt, hget, hpending⟩⟩
  · exact (List.length_filter_le _ _).trans hshort
  · exact (len_foldl_expirePrompt_le _ _).trans hslotted.pending_le
  · rw [horder]
    exact (List.length_filter_le _ _).trans hslotted.order_le

/-- A new prompt takes a slot of its own. Assumes: the slots, an order no longer than the index, a
key without a pending prompt and room for it. -/
theorem slotted_create (hslotted : queue.Slotted)
    (hshort : queue.order.length ≤ queue.pendingByKey.len) {key : PromptKey}
    (hnone : queue.pendingByKey.get key = none)
    (hroom : queue.pendingByKey.len < queue.capacity) (createNow : Instant) :
    (queue.create createNow key).Slotted := by
  have hget : ∀ id, (queue.create createNow key).prompts.get id =
      if id = queue.nextId then some (queue.newPrompt createNow key) else queue.prompts.get id :=
    fun id ↦ FiniteMap.get_insert ..
  have hlen : (queue.create createNow key).pendingByKey.len = queue.pendingByKey.len + 1 :=
    FiniteMap.len_insert_of_none hnone _
  have horder : (queue.create createNow key).order = queue.order ++ [queue.nextId] := rfl
  have hcapacity : (queue.create createNow key).capacity = queue.capacity := rfl
  have hlength : (queue.create createNow key).order.length = queue.order.length + 1 := by
    rw [horder, List.length_append, List.length_singleton]
  refine ⟨?_, ?_, ?_, by omega, by omega⟩
  · intro id prompt hprompt
    rw [hget] at hprompt
    split_ifs at hprompt with hid
    · obtain rfl := Option.some.inj hprompt
      exact hid.symm
    · exact hslotted.keyed id prompt hprompt
  · intro id prompt hprompt hpending
    rw [hget] at hprompt
    rw [horder, List.mem_append, List.mem_singleton]
    split_ifs at hprompt with hid
    · exact .inr hid
    · exact .inl (hslotted.covered id prompt hprompt hpending)
  · have hfilter := List.length_filter_le (isPending (queue.create createNow key).prompts)
      (queue.create createNow key).order
    omega

/-- An answered prompt gives up its slot. Assumes: the slots, an order no longer than the index, and
a pending prompt. -/
theorem slotted_record (hslotted : queue.Slotted)
    (hshort : queue.order.length ≤ queue.pendingByKey.len) {id : UInt64} {prompt : Prompt}
    (hget : queue.prompts.get id = some prompt) (hpending : prompt.state = .pending)
    (insertNow : Instant) (verdict : Verdict) (scope : RuleScope) :
    (queue.record insertNow id prompt.key verdict scope).Slotted := by
  have hindex : (queue.record insertNow id prompt.key verdict scope).pendingByKey =
      queue.pendingByKey.remove prompt.key := by
    rw [record, pendingByKey_leaveToken]
  have hframe : (queue.record insertNow id prompt.key verdict scope).order = queue.order ∧
      (queue.record insertNow id prompt.key verdict scope).capacity = queue.capacity := by
    unfold record leaveToken
    split <;> exact ⟨rfl, rfl⟩
  have hafter : ∀ other after,
      (queue.record insertNow id prompt.key verdict scope).prompts.get other = some after →
      after.state = .pending →
      other ≠ id ∧ queue.prompts.get other = some after := by
    intro other after hother hstill
    rw [get_record] at hother
    split_ifs at hother with hid
    · obtain ⟨before, -, rfl⟩ := Option.map_eq_some_iff.mp hother
      cases hstill
    · exact ⟨hid, hother⟩
  -- The answered id leaves the pending ids of the order.
  have hfewer : (queue.order.filter
      (isPending (queue.record insertNow id prompt.key verdict scope).prompts)).length + 1 ≤
        queue.order.length := by
    refine Nat.succ_le_of_lt (List.length_filter_lt_length_iff_exists.mpr ⟨id, ?_, ?_⟩)
    · exact hslotted.covered id prompt hget hpending
    · intro hstill
      obtain ⟨after, hsome, hafterPending⟩ := (isPending_iff _ _).mp hstill
      exact (hafter id after hsome hafterPending).1 rfl
  have hremoved := queue.pendingByKey.len_le_remove prompt.key
  have hbelow := queue.pendingByKey.len_remove_le prompt.key
  have hslots := hslotted.pending_le
  refine ⟨(queue.extends_record insertNow id prompt.key verdict scope).keyed hslotted.keyed,
    ?_, ?_, ?_, ?_⟩
  · intro other after hother hstill
    rw [hframe.1]
    obtain ⟨-, hbefore⟩ := hafter other after hother hstill
    exact hslotted.covered other after hbefore hstill
  · rw [hframe.1, hindex]
    omega
  · rw [hframe.2, hindex]
    omega
  · rw [hframe.1, hframe.2]
    exact hslotted.order_le

theorem slotted_new (capacity : ℕ) (hcapacity : 0 < capacity) (ttl : Duration) :
    (new capacity hcapacity ttl).Slotted := by
  have hempty : ∀ id prompt, (new capacity hcapacity ttl).prompts.get id ≠ some prompt :=
    fun id prompt hget ↦ by cases (FiniteMap.get_empty (ν := Prompt) id).symm.trans hget
  refine ⟨fun id prompt hget ↦ absurd hget (hempty id prompt),
    fun id prompt hget ↦ absurd hget (hempty id prompt), ?_, Nat.zero_le _, Nat.zero_le _⟩
  exact Nat.zero_le _

/-- Every call keeps the slots. Assumes: the slots. -/
theorem slotted_step (hslotted : queue.Slotted) (op : QueueOp) : (op.step queue).Slotted := by
  obtain ⟨hlive, hshort⟩ := slotted_expire hslotted op.now
  cases op with
  | enqueue expireNow createNow key =>
    rcases queue.enqueue_cases expireNow createNow key with ⟨hsame, -⟩ | ⟨hnone, hroom, hcreated⟩
    · rw [QueueOp.step, hsame]
      exact hlive
    · rw [QueueOp.step, hcreated]
      exact slotted_create hlive hshort hnone hroom createNow
  | answer expireNow insertNow id verdict scope =>
    rw [QueueOp.step]
    rcases queue.answer_cases expireNow insertNow id verdict scope with
      hsame | ⟨prompt, hget, hpending, hrecorded⟩
    · rw [hsame]
      exact hlive
    · rw [hrecorded]
      exact slotted_record hlive hshort hget hpending insertNow verdict scope
  | takeOnceAllow expireNow checkNow key =>
    exact ⟨hlive.keyed, hlive.covered, hlive.slots, hlive.pending_le, hlive.order_le⟩
  | consumeOnceDeny now key =>
    exact ⟨hlive.keyed, hlive.covered, hlive.slots, hlive.pending_le, hlive.order_le⟩
  | listPending now => exact hlive

theorem card_onceDenies_expire (queue : PromptQueue) (now : Instant) :
    (queue.expire now).onceDenies.card ≤ queue.capacity := by
  change (if queue.capacity < queue.onceDenies.card then ∅ else queue.onceDenies).card ≤ _
  split_ifs with hmany
  · exact Nat.zero_le _
  · exact not_lt.mp hmany

theorem card_onceDenies_leaveToken (queue : PromptQueue) (key : PromptKey) (verdict : Verdict)
    (scope : RuleScope) (insertNow : Instant) :
    (queue.leaveToken key verdict scope insertNow).onceDenies.card ≤ queue.onceDenies.card + 1 := by
  unfold leaveToken
  split
  · exact Nat.le_succ _
  · exact Finset.card_insert_le _ _
  · exact Nat.le_succ _

/-- Every call leaves the capacity, and at most one deny token more than that. -/
theorem card_onceDenies_step (queue : PromptQueue) (op : QueueOp) :
    (op.step queue).capacity = queue.capacity ∧
      (op.step queue).onceDenies.card ≤ queue.capacity + 1 := by
  have hlive := queue.card_onceDenies_expire op.now
  have hmore : (queue.expire op.now).onceDenies.card ≤ queue.capacity + 1 := Nat.le_succ_of_le hlive
  cases op with
  | enqueue expireNow createNow key =>
    refine ⟨queue.capacity_enqueue expireNow createNow key, ?_⟩
    rcases queue.enqueue_cases expireNow createNow key with ⟨hsame, -⟩ | ⟨-, -, hcreated⟩
    · rw [QueueOp.step, hsame]
      exact hmore
    · rw [QueueOp.step, hcreated]
      exact hmore
  | answer expireNow insertNow id verdict scope =>
    refine ⟨(queue.frame_answer expireNow insertNow id verdict scope).1, ?_⟩
    rw [QueueOp.step]
    rcases queue.answer_cases expireNow insertNow id verdict scope with
      hsame | ⟨prompt, -, -, hrecorded⟩
    · rw [hsame]
      exact hmore
    · rw [hrecorded]
      exact (card_onceDenies_leaveToken ..).trans (Nat.succ_le_succ hlive)
  | takeOnceAllow expireNow checkNow key => exact ⟨rfl, hmore⟩
  | consumeOnceDeny now key => exact ⟨rfl, (Finset.card_erase_le.trans hmore)⟩
  | listPending now => exact ⟨rfl, hmore⟩

/-- The order, the index of pending prompts and the deny tokens are bounded by the capacity in every
run. -/
theorem sizes_bounded (capacity : ℕ) (hcapacity : 0 < capacity) (ttl : Duration)
    (ops : List QueueOp) (index : ℕ) :
    (queueAt (.new capacity hcapacity ttl) ops index).order.length ≤ capacity ∧
      (queueAt (.new capacity hcapacity ttl) ops index).pendingByKey.len ≤ capacity ∧
      (queueAt (.new capacity hcapacity ttl) ops index).onceDenies.card ≤ capacity + 1 := by
  obtain ⟨hslotted, hsame, hdenies⟩ := stateAt_invariant QueueOp.step (new capacity hcapacity ttl)
    ops (fun queue ↦ queue.Slotted ∧ queue.capacity = capacity ∧
      queue.onceDenies.card ≤ capacity + 1)
    ⟨slotted_new capacity hcapacity ttl, rfl, Nat.zero_le _⟩
    (fun queue op hbefore ↦ by
      obtain ⟨hslotted, hsame, -⟩ := hbefore
      obtain ⟨hcapacity, hdenies⟩ := queue.card_onceDenies_step op
      exact ⟨slotted_step hslotted op, hcapacity.trans hsame, hsame ▸ hdenies⟩) index
  exact ⟨hslotted.order_le.trans hsame.le, hslotted.pending_le.trans hsame.le, hdenies⟩

section Runs

variable (capacity : ℕ) (hcapacity : 0 < capacity) (ttl : Duration)

/-- The queue after a run of questions. -/
theorem queueAt_length_askedRun (count : ℕ) :
    queueAt (.new capacity hcapacity ttl) (askedRun nthKey .allow .once count)
      (askedRun nthKey .allow .once count).length =
        asked nthKey .allow .once (.new capacity hcapacity ttl) count :=
  stateAt_length ..

/-- The allow tokens exceed every number. -/
theorem onceAllows_exceed (bound : ℕ) :
    ∃ ops, ClockForward QueueOp.readings ops ∧
      bound < (queueAt (.new capacity hcapacity ttl) ops ops.length).onceAllows.len := by
  have hkeyed := (slotted_new capacity hcapacity ttl).keyed
  refine ⟨askedRun nthKey .allow .once (bound + 1), clockForward_askedRun .., ?_⟩
  rw [queueAt_length_askedRun, (len_onceAllows_asked hkeyed (fun key ↦ FiniteMap.get_empty key) rfl
    rfl (bound + 1)).1]
  exact Nat.lt_succ_self bound

/-- The prompts exceed every number below that of the ids. Assumes: the number is below. -/
theorem prompts_exceed {bound : ℕ} (hfew : bound < 2 ^ 64 - 1) :
    ∃ ops, ClockForward QueueOp.readings ops ∧
      bound < (queueAt (.new capacity hcapacity ttl) ops ops.length).prompts.len := by
  have hkeyed := (slotted_new capacity hcapacity ttl).keyed
  refine ⟨askedRun nthKey .allow .once (bound + 1), clockForward_askedRun .., ?_⟩
  rw [queueAt_length_askedRun, (len_prompts_asked hkeyed (fun key ↦ FiniteMap.get_empty key) rfl rfl
    (by omega)).1]
  exact Nat.lt_succ_self bound

/-- No number bounds the collections in every run. -/
theorem not_memoryBounded (bound : ℕ) : ¬ MemoryBounded capacity hcapacity ttl bound := by
  intro hbounded
  obtain ⟨ops, -, hlarge⟩ := onceAllows_exceed capacity hcapacity ttl bound
  exact absurd (hbounded ops ops.length).onceAllows (not_le.mpr hlarge)

/-- Whatever the capacity and the lifetime, no number bounds the collections in every run: at one
instant already the allow tokens exceed every number, and the prompts every number below that of the
ids. The other three collections are bounded by the capacity. Assumes: the capacity is positive, as
the constructor asserts. -/
theorem prompt_memory_unbounded :
    (∀ bound, ¬ MemoryBounded capacity hcapacity ttl bound) ∧
      (∀ bound, ∃ ops, ClockForward QueueOp.readings ops ∧
        bound < (queueAt (.new capacity hcapacity ttl) ops ops.length).onceAllows.len) ∧
      (∀ bound < 2 ^ 64 - 1, ∃ ops, ClockForward QueueOp.readings ops ∧
        bound < (queueAt (.new capacity hcapacity ttl) ops ops.length).prompts.len) ∧
      ∀ ops index,
        (queueAt (.new capacity hcapacity ttl) ops index).order.length ≤ capacity ∧
        (queueAt (.new capacity hcapacity ttl) ops index).pendingByKey.len ≤ capacity ∧
        (queueAt (.new capacity hcapacity ttl) ops index).onceDenies.card ≤ capacity + 1 :=
  ⟨not_memoryBounded capacity hcapacity ttl, onceAllows_exceed capacity hcapacity ttl,
    fun _ hfew ↦ prompts_exceed capacity hcapacity ttl hfew, sizes_bounded capacity hcapacity ttl⟩

end Runs

theorem default_memory_unbounded :
    0 < 100 ∧ ∀ bound, ¬ MemoryBounded 100 (Nat.zero_lt_succ 99) (Duration.fromSecs 60) bound :=
  ⟨Nat.zero_lt_succ 99,
    (prompt_memory_unbounded 100 (Nat.zero_lt_succ 99) (Duration.fromSecs 60)).1⟩

/-- No bound can be computed from the capacity and the lifetime: the queue of the daemon exceeds
it. -/
theorem memory_exceeds_capacity_and_ttl :
    ¬ ∃ bound : ℕ → Duration → ℕ, ∀ capacity hcapacity ttl,
      MemoryBounded capacity hcapacity ttl (bound capacity ttl) := by
  rintro ⟨bound, hbounded⟩
  exact not_memoryBounded 100 (Nat.zero_lt_succ 99) (Duration.fromSecs 60) _
    (hbounded 100 (Nat.zero_lt_succ 99) (Duration.fromSecs 60))

end PromptQueue

end InterFire
