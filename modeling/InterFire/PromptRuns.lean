import Mathlib.Data.Set.Function
import InterFire.Consent
import InterFire.Library.Arrivals
import InterFire.PromptRecords

/-!
# Runs of the prompt queue

The six collections of the prompt queue say one thing in several ways. `Consistent` is what holds
between them: a prompt is stored under its id, which is below the next one; the index by key leads
to the pending prompts and back; the order is ascending and covers them; and a key has a pending
prompt, an allow token or a deny token, and no two of them.

The housekeeping marks exactly the overdue prompts and frees exactly their keys
(`get_expire_eq`, `get_pendingByKey_expire`), so it preserves the invariant
(`consistent_expire`). A decision takes both tokens of a key before it asks about the key, which is
why a new prompt meets no token (`consistent_decide`). `prompt_queue_represented` is the invariant
along every run of decisions, answers and lists.
-/

set_option autoImplicit false
set_option relaxedAutoImplicit false

namespace InterFire

/-- The prompt waits for an answer and its time has passed. -/
def Prompt.Overdue (now : Instant) (prompt : Prompt) : Bool :=
  prompt.state = .pending && prompt.expiresAt < now

/-- What the housekeeping makes of a prompt. -/
def Prompt.housekept (now : Instant) (prompt : Prompt) : Prompt :=
  if prompt.Overdue now then prompt.expired else prompt

namespace Prompt

@[simp] theorem id_housekept (now : Instant) (prompt : Prompt) :
    (prompt.housekept now).id = prompt.id := by
  unfold housekept
  split_ifs <;> rfl

@[simp] theorem key_housekept (now : Instant) (prompt : Prompt) :
    (prompt.housekept now).key = prompt.key := by
  unfold housekept
  split_ifs <;> rfl

/-- A prompt is pending after the housekeeping when it was and is not overdue. -/
theorem pending_housekept_iff (now : Instant) (prompt : Prompt) :
    (prompt.housekept now).state = .pending ↔
      prompt.state = .pending ∧ now ≤ prompt.expiresAt := by
  unfold housekept Overdue
  split_ifs with hoverdue
  · simp only [Bool.and_eq_true, decide_eq_true_eq] at hoverdue
    simp [expired, not_le.mpr hoverdue.2]
  · simp only [Bool.and_eq_true, decide_eq_true_eq, not_and, not_lt] at hoverdue
    exact ⟨fun hpending ↦ ⟨hpending, hoverdue hpending⟩, fun hand ↦ hand.1⟩

/-- A pending prompt is left as it is. Assumes: it is pending afterwards. -/
theorem housekept_of_pending {now : Instant} {prompt : Prompt}
    (hpending : (prompt.housekept now).state = .pending) : prompt.housekept now = prompt := by
  unfold housekept at hpending ⊢
  split_ifs at hpending ⊢
  · cases hpending
  · rfl

end Prompt

namespace PromptQueue

/-! ### Housekeeping -/

/-- The prompts that the housekeeping marks, with their keys. -/
def overdue (queue : PromptQueue) (now : Instant) : List (UInt64 × PromptKey) :=
  (queue.prompts.values.filter fun prompt ↦ prompt.Overdue now).map fun prompt ↦
    (prompt.id, prompt.key)

theorem pendingByKey_foldl_expirePrompt (expired : List (UInt64 × PromptKey))
    (maps : FiniteMap UInt64 Prompt × FiniteMap PromptKey UInt64) (key : PromptKey) :
    (expired.foldl expirePrompt maps).2.get key =
      if key ∈ expired.map Prod.snd then none else maps.2.get key := by
  induction expired generalizing maps with
  | nil => rfl
  | cons first rest ih =>
    have hfirst : (expirePrompt maps first).2.get key =
        if key = first.2 then none else maps.2.get key := FiniteMap.get_remove ..
    rw [List.foldl_cons, ih, hfirst, List.map_cons]
    by_cases hkey : key = first.2
    · rw [if_pos hkey, if_pos (List.mem_cons.mpr (.inl hkey)), ite_self]
    · simp only [List.mem_cons, hkey, false_or, if_false]

theorem mem_overdue_iff (queue : PromptQueue) (now : Instant) (pair : UInt64 × PromptKey) :
    pair ∈ queue.overdue now ↔ ∃ id prompt, queue.prompts.get id = some prompt ∧
      prompt.Overdue now ∧ pair = (prompt.id, prompt.key) := by
  simp only [overdue, List.mem_map, List.mem_filter, FiniteMap.mem_values_iff]
  constructor
  · rintro ⟨prompt, ⟨⟨id, hget⟩, hoverdue⟩, rfl⟩
    exact ⟨id, prompt, hget, hoverdue, rfl⟩
  · rintro ⟨id, prompt, hget, hoverdue, rfl⟩
    exact ⟨prompt, ⟨⟨id, hget⟩, hoverdue⟩, rfl⟩

/-- The housekeeping marks exactly the overdue prompts. Assumes: each is stored under its id. -/
theorem get_expire_eq {queue : PromptQueue} (hkeyed : queue.Keyed) (now : Instant) (id : UInt64) :
    (queue.expire now).prompts.get id =
      (queue.prompts.get id).map (Prompt.housekept now) := by
  change ((queue.overdue now).foldl expirePrompt (queue.prompts, queue.pendingByKey)).1.get id = _
  rw [prompts_foldl_expirePrompt]
  cases hget : queue.prompts.get id with
  | none => split_ifs <;> rfl
  | some prompt =>
    have hmem : id ∈ (queue.overdue now).map Prod.fst ↔ prompt.Overdue now := by
      rw [List.mem_map]
      constructor
      · rintro ⟨pair, hpair, rfl⟩
        obtain ⟨other, found, hfound, hoverdue, rfl⟩ := (queue.mem_overdue_iff now pair).mp hpair
        rw [hkeyed other found hfound] at hget
        obtain rfl := Option.some.inj (hget.symm.trans hfound)
        exact hoverdue
      · intro hoverdue
        refine ⟨_, (queue.mem_overdue_iff now _).mpr ⟨id, prompt, hget, hoverdue, rfl⟩, ?_⟩
        exact hkeyed id prompt hget
    rw [Option.map_some, Option.map_some, Prompt.housekept]
    split_ifs with hin hoverdue hoverdue
    · rfl
    · exact absurd (hmem.mp hin) hoverdue
    · exact absurd (hmem.mpr hoverdue) hin
    · rfl

/-- The housekeeping frees exactly the keys of the overdue prompts. -/
theorem get_pendingByKey_expire (queue : PromptQueue) (now : Instant) (key : PromptKey) :
    (queue.expire now).pendingByKey.get key =
      if key ∈ (queue.overdue now).map Prod.snd then none else queue.pendingByKey.get key :=
  pendingByKey_foldl_expirePrompt _ _ key

theorem len_foldl_expirePrompt_le (expired : List (UInt64 × PromptKey))
    (maps : FiniteMap UInt64 Prompt × FiniteMap PromptKey UInt64) :
    (expired.foldl expirePrompt maps).2.len ≤ maps.2.len := by
  induction expired generalizing maps with
  | nil => exact le_rfl
  | cons first rest ih =>
    exact (ih (expirePrompt maps first)).trans (FiniteMap.len_remove_le maps.2 first.2)

/-! ### The invariant -/

/-- The prompts, the index by key and the order say the same. -/
structure Indexed (queue : PromptQueue) : Prop where
  keyed : queue.Keyed
  below : ∀ id prompt, queue.prompts.get id = some prompt → id.toNat < queue.nextId.toNat
  index : ∀ key id, queue.pendingByKey.get key = some id ↔
    ∃ prompt, queue.prompts.get id = some prompt ∧ prompt.state = .pending ∧ prompt.key = key
  bounded : queue.pendingByKey.len ≤ queue.capacity
  ascending : queue.order.Pairwise fun first second ↦ first.toNat < second.toNat
  covered : ∀ id prompt, queue.prompts.get id = some prompt → prompt.state = .pending →
    id ∈ queue.order
  order_below : ∀ id ∈ queue.order, id.toNat < queue.nextId.toNat

/-- A key has a pending prompt, an allow token or a deny token, and no two of them. -/
structure Exclusive (queue : PromptQueue) (key : PromptKey) : Prop where
  pending_allow : ¬ ((queue.pendingByKey.get key).isSome ∧ (queue.onceAllows.get key).isSome)
  pending_deny : ¬ ((queue.pendingByKey.get key).isSome ∧ key ∈ queue.onceDenies)
  allow_deny : ¬ ((queue.onceAllows.get key).isSome ∧ key ∈ queue.onceDenies)

/-- The invariant of the queue. -/
structure Consistent (queue : PromptQueue) : Prop where
  indexed : queue.Indexed
  exclusive : ∀ key, queue.Exclusive key

theorem consistent_new (capacity : ℕ) (hcapacity : 0 < capacity) (ttl : Duration) :
    (new capacity hcapacity ttl).Consistent := by
  have hprompts : ∀ id, (new capacity hcapacity ttl).prompts.get id = none :=
    fun id ↦ FiniteMap.get_empty id
  have hindex : ∀ key, (new capacity hcapacity ttl).pendingByKey.get key = none :=
    fun key ↦ FiniteMap.get_empty key
  have hallows : ∀ key, (new capacity hcapacity ttl).onceAllows.get key = none :=
    fun key ↦ FiniteMap.get_empty key
  refine ⟨⟨?_, ?_, ?_, Nat.zero_le _, List.Pairwise.nil, ?_, ?_⟩, fun key ↦ ⟨?_, ?_, ?_⟩⟩
  · intro id prompt hget
    rw [hprompts] at hget
    cases hget
  · intro id prompt hget
    rw [hprompts] at hget
    cases hget
  · intro key id
    simp [hprompts, hindex]
  · intro id prompt hget
    rw [hprompts] at hget
    cases hget
  · rintro id ⟨⟩
  · simp [hindex]
  · simp [hindex]
  · simp [hallows]

/-- The tokens are no part of the index. Assumes: the other collections are the same. -/
theorem Indexed.of_eq {before after : PromptQueue} (hindexed : before.Indexed)
    (hcapacity : after.capacity = before.capacity) (hnext : after.nextId = before.nextId)
    (horder : after.order = before.order) (hprompts : after.prompts = before.prompts)
    (hpending : after.pendingByKey = before.pendingByKey) : after.Indexed := by
  refine ⟨?_, ?_, ?_, ?_, ?_, ?_, ?_⟩
  · rw [Keyed, hprompts]
    exact hindexed.keyed
  · rw [hprompts, hnext]
    exact hindexed.below
  · rw [hprompts, hpending]
    exact hindexed.index
  · rw [hpending, hcapacity]
    exact hindexed.bounded
  · rw [horder]
    exact hindexed.ascending
  · rw [hprompts, horder]
    exact hindexed.covered
  · rw [horder, hnext]
    exact hindexed.order_below

/-- Fewer prompts and tokens stay exclusive. Assumes: no key gains a prompt or a token. -/
theorem Exclusive.mono {before after : PromptQueue} {key : PromptKey}
    (hexclusive : before.Exclusive key)
    (hpending : (after.pendingByKey.get key).isSome → (before.pendingByKey.get key).isSome)
    (hallow : (after.onceAllows.get key).isSome → (before.onceAllows.get key).isSome)
    (hdeny : key ∈ after.onceDenies → key ∈ before.onceDenies) : after.Exclusive key :=
  ⟨fun hboth ↦ hexclusive.pending_allow ⟨hpending hboth.1, hallow hboth.2⟩,
    fun hboth ↦ hexclusive.pending_deny ⟨hpending hboth.1, hdeny hboth.2⟩,
    fun hboth ↦ hexclusive.allow_deny ⟨hallow hboth.1, hdeny hboth.2⟩⟩

/-- A pending prompt after the housekeeping was pending before it and is not overdue. Assumes: each
prompt is stored under its id. -/
theorem pending_expire_iff {queue : PromptQueue} (hkeyed : queue.Keyed) (now : Instant)
    (id : UInt64) (prompt : Prompt) :
    ((queue.expire now).prompts.get id = some prompt ∧ prompt.state = .pending) ↔
      queue.prompts.get id = some prompt ∧ prompt.state = .pending ∧ now ≤ prompt.expiresAt := by
  rw [get_expire_eq hkeyed, Option.map_eq_some_iff]
  constructor
  · rintro ⟨⟨before, hget, rfl⟩, hpending⟩
    have hsame := Prompt.housekept_of_pending hpending
    rw [Prompt.pending_housekept_iff] at hpending
    rw [hsame]
    exact ⟨hget, hpending⟩
  · rintro ⟨hget, hpending⟩
    have hafter := (prompt.pending_housekept_iff now).mpr hpending
    exact ⟨⟨prompt, hget, Prompt.housekept_of_pending hafter⟩, hpending.1⟩

/-- The housekeeping frees a key exactly when its prompt is overdue. Assumes: the index. -/
theorem index_expire {queue : PromptQueue} (hindexed : queue.Indexed) (now : Instant)
    (key : PromptKey) (id : UInt64) :
    (queue.expire now).pendingByKey.get key = some id ↔
      ∃ prompt, (queue.expire now).prompts.get id = some prompt ∧
        prompt.state = .pending ∧ prompt.key = key := by
  have hfreed : key ∈ (queue.overdue now).map Prod.snd ↔
      ∃ other prompt, queue.prompts.get other = some prompt ∧ prompt.Overdue now ∧
        prompt.key = key := by
    rw [List.mem_map]
    constructor
    · rintro ⟨pair, hpair, rfl⟩
      obtain ⟨other, prompt, hget, hoverdue, rfl⟩ := (queue.mem_overdue_iff now pair).mp hpair
      exact ⟨other, prompt, hget, hoverdue, rfl⟩
    · rintro ⟨other, prompt, hget, hoverdue, rfl⟩
      exact ⟨_, (queue.mem_overdue_iff now _).mpr ⟨other, prompt, hget, hoverdue, rfl⟩, rfl⟩
  rw [get_pendingByKey_expire]
  constructor
  · intro hget
    split_ifs at hget with hmem
    obtain ⟨prompt, hprompt, hpending, hkey⟩ := (hindexed.index key id).mp hget
    refine ⟨prompt, ?_⟩
    have hnow : now ≤ prompt.expiresAt := by
      by_contra hlate
      refine hmem (hfreed.mpr ⟨id, prompt, hprompt, ?_, hkey⟩)
      simp [Prompt.Overdue, hpending, not_le.mp hlate]
    have hafter := (pending_expire_iff hindexed.keyed now id prompt).mpr ⟨hprompt, hpending, hnow⟩
    exact ⟨hafter.1, hafter.2, hkey⟩
  · rintro ⟨prompt, hafter, hpending, hkey⟩
    obtain ⟨hprompt, -, hnow⟩ :=
      (pending_expire_iff hindexed.keyed now id prompt).mp ⟨hafter, hpending⟩
    have hget := (hindexed.index key id).mpr ⟨prompt, hprompt, hpending, hkey⟩
    rw [if_neg, hget]
    -- An overdue prompt with the key would be this one.
    intro hmem
    obtain ⟨other, late, hlate, hoverdue, hsame⟩ := hfreed.mp hmem
    simp only [Prompt.Overdue, Bool.and_eq_true, decide_eq_true_eq] at hoverdue
    have hother := (hindexed.index key other).mpr ⟨late, hlate, hoverdue.1, hsame⟩
    obtain rfl := Option.some.inj (hget.symm.trans hother)
    obtain rfl := Option.some.inj (hprompt.symm.trans hlate)
    exact absurd hnow (not_le.mpr hoverdue.2)

theorem indexed_expire {queue : PromptQueue} (hindexed : queue.Indexed) (now : Instant) :
    (queue.expire now).Indexed := by
  have horder : (queue.expire now).order.Sublist queue.order := List.filter_sublist
  refine ⟨(queue.extends_expire now).keyed hindexed.keyed, ?_, index_expire hindexed now, ?_,
    hindexed.ascending.sublist horder, ?_, ?_⟩
  · intro id prompt hget
    obtain ⟨before, hbefore, -⟩ := exists_of_get_expire hget
    exact hindexed.below id before hbefore
  · exact (len_foldl_expirePrompt_le _ _).trans hindexed.bounded
  · intro id prompt hget hpending
    obtain ⟨hbefore, -, -⟩ :=
      (pending_expire_iff hindexed.keyed now id prompt).mp ⟨hget, hpending⟩
    refine List.mem_filter.mpr ⟨hindexed.covered id prompt hbefore hpending, ?_⟩
    change isPending (queue.expire now).prompts id = true
    simp [isPending, hget, hpending]
  · intro id hmem
    exact hindexed.order_below id (horder.subset hmem)

theorem consistent_expire {queue : PromptQueue} (hconsistent : queue.Consistent) (now : Instant) :
    (queue.expire now).Consistent := by
  refine ⟨indexed_expire hconsistent.indexed now, fun key ↦ ?_⟩
  refine (hconsistent.exclusive key).mono ?_ ?_ ?_
  · rw [get_pendingByKey_expire]
    split_ifs
    · rintro ⟨⟩
    · exact id
  · intro hsome
    obtain ⟨inserted, hget⟩ := Option.isSome_iff_exists.mp hsome
    rw [tokensLe_expire queue now key inserted hget]
    rfl
  · intro hmem
    change key ∈ (if queue.capacity < queue.onceDenies.card then ∅ else queue.onceDenies) at hmem
    split_ifs at hmem
    · cases hmem
    · exact hmem

/-! ### The operations -/

theorem consistent_takeOnceAllow {queue : PromptQueue} (hconsistent : queue.Consistent)
    (expireNow checkNow : Instant) (key : PromptKey) :
    (queue.takeOnceAllow expireNow checkNow key).1.Consistent := by
  have hlive := consistent_expire hconsistent expireNow
  refine ⟨hlive.indexed.of_eq rfl rfl rfl rfl rfl, fun other ↦ ?_⟩
  refine (hlive.exclusive other).mono id ?_ id
  change (((queue.expire expireNow).onceAllows.remove key).get other).isSome → _
  rw [FiniteMap.get_remove]
  split_ifs
  · rintro ⟨⟩
  · exact id

theorem consistent_consumeOnceDeny {queue : PromptQueue} (hconsistent : queue.Consistent)
    (now : Instant) (key : PromptKey) : (queue.consumeOnceDeny now key).1.Consistent := by
  have hlive := consistent_expire hconsistent now
  refine ⟨hlive.indexed.of_eq rfl rfl rfl rfl rfl, fun other ↦ ?_⟩
  exact (hlive.exclusive other).mono id id Finset.mem_of_mem_erase

theorem nextId_takeOnceAllow (queue : PromptQueue) (expireNow checkNow : Instant)
    (key : PromptKey) : (queue.takeOnceAllow expireNow checkNow key).1.nextId = queue.nextId := rfl

theorem nextId_consumeOnceDeny (queue : PromptQueue) (now : Instant) (key : PromptKey) :
    (queue.consumeOnceDeny now key).1.nextId = queue.nextId := rfl

/-- The key has no token. -/
def Tokenless (queue : PromptQueue) (key : PromptKey) : Prop :=
  queue.onceAllows.get key = none ∧ key ∉ queue.onceDenies

theorem tokenless_expire {queue : PromptQueue} {key : PromptKey} (hfree : queue.Tokenless key)
    (now : Instant) : (queue.expire now).Tokenless key := by
  constructor
  · cases hget : (queue.expire now).onceAllows.get key with
    | none => rfl
    | some inserted =>
      rw [← hfree.1, tokensLe_expire queue now key inserted hget]
  · change key ∉ (if queue.capacity < queue.onceDenies.card then ∅ else queue.onceDenies)
    split_ifs
    · exact Finset.notMem_empty key
    · exact hfree.2

/-- A key has no token after both were taken. -/
theorem tokenless_of_taken (queue : PromptQueue) (expireNow checkNow denyNow : Instant)
    (key : PromptKey) :
    (((queue.takeOnceAllow expireNow checkNow key).1).consumeOnceDeny denyNow key).1.Tokenless
      key := by
  constructor
  · have htaken := queue.get_takeOnceAllow_self expireNow checkNow key
    cases hget : ((((queue.takeOnceAllow expireNow checkNow key).1).consumeOnceDeny denyNow
      key).1).onceAllows.get key with
    | none => rfl
    | some inserted => rw [← htaken, tokensLe_consumeOnceDeny _ denyNow key key inserted hget]
  · exact Finset.notMem_erase key _

/-- A queue with one prompt more. -/
def create (queue : PromptQueue) (createNow : Instant) (key : PromptKey) : PromptQueue :=
  { queue with
    nextId := saturatingAdd queue.nextId 1
    prompts := queue.prompts.insert queue.nextId (queue.newPrompt createNow key)
    order := queue.order ++ [queue.nextId]
    pendingByKey := queue.pendingByKey.insert key queue.nextId }

/-- Enqueuing a key leaves the live queue as it is, or creates a prompt in it. -/
theorem enqueue_cases (queue : PromptQueue) (expireNow createNow : Instant) (key : PromptKey) :
    let live := queue.expire expireNow
    let after := queue.enqueue expireNow createNow key
    (after.1 = live ∧ ∀ id, after.2 ≠ .created id) ∨
      (live.pendingByKey.get key = none ∧ live.pendingByKey.len < live.capacity ∧
        after = (live.create createNow key, .created live.nextId)) := by
  intro live after
  unfold after enqueue
  dsimp only
  split
  · exact .inl ⟨rfl, fun id heq ↦ by cases heq⟩
  · next hnone =>
    split_ifs with hfull
    · exact .inl ⟨rfl, fun id heq ↦ by cases heq⟩
    · exact .inr ⟨hnone, not_le.mp hfull, rfl⟩

section Create

variable {queue : PromptQueue} {key : PromptKey}

/-- The next id is free. Assumes: the index. -/
theorem get_nextId (hindexed : queue.Indexed) : queue.prompts.get queue.nextId = none := by
  cases hget : queue.prompts.get queue.nextId with
  | none => rfl
  | some prompt => exact absurd (hindexed.below _ prompt hget) (lt_irrefl _)

/-- Assumes: the index, a key without a pending prompt, and an id that is left. -/
theorem index_create (hindexed : queue.Indexed) (hnone : queue.pendingByKey.get key = none)
    (createNow : Instant) (other : PromptKey) (id : UInt64) :
    (queue.create createNow key).pendingByKey.get other = some id ↔
      ∃ prompt, (queue.create createNow key).prompts.get id = some prompt ∧
        prompt.state = .pending ∧ prompt.key = other := by
  change (queue.pendingByKey.insert key queue.nextId).get other = some id ↔
    ∃ prompt, (queue.prompts.insert queue.nextId (queue.newPrompt createNow key)).get id =
      some prompt ∧ _
  rw [FiniteMap.get_insert, FiniteMap.get_insert]
  by_cases hid : id = queue.nextId
  · -- The new prompt is found from its key only.
    subst hid
    rw [if_pos rfl]
    split_ifs with hother
    · refine iff_of_true rfl ⟨_, rfl, rfl, hother.symm⟩
    · refine iff_of_false ?_ ?_
      · intro hget
        obtain ⟨prompt, hprompt, -⟩ := (hindexed.index other _).mp hget
        rw [get_nextId hindexed] at hprompt
        cases hprompt
      · rintro ⟨prompt, hprompt, -, hkey⟩
        obtain rfl := Option.some.inj hprompt
        exact hother hkey.symm
  · rw [if_neg hid]
    split_ifs with hother
    · subst hother
      refine iff_of_false (fun heq ↦ hid (Option.some.inj heq).symm) ?_
      rw [← hindexed.index, hnone]
      rintro ⟨⟩
    · exact hindexed.index other id

/-- Assumes: the index, a key without a pending prompt, room for it and an id that is left. -/
theorem indexed_create (hindexed : queue.Indexed) (hnone : queue.pendingByKey.get key = none)
    (hroom : queue.pendingByKey.len < queue.capacity) (hleft : queue.nextId.toNat + 1 < 2 ^ 64)
    (createNow : Instant) : (queue.create createNow key).Indexed := by
  have hnext : (queue.create createNow key).nextId.toNat = queue.nextId.toNat + 1 :=
    toNat_saturatingAdd_one hleft
  have hget : ∀ id, (queue.create createNow key).prompts.get id =
      if id = queue.nextId then some (queue.newPrompt createNow key) else queue.prompts.get id :=
    fun id ↦ FiniteMap.get_insert ..
  refine ⟨?_, ?_, index_create hindexed hnone createNow, ?_, ?_, ?_, ?_⟩
  · intro id prompt hprompt
    rw [hget] at hprompt
    split_ifs at hprompt with hid
    · obtain rfl := Option.some.inj hprompt
      exact hid.symm
    · exact hindexed.keyed id prompt hprompt
  · intro id prompt hprompt
    rw [hget] at hprompt
    split_ifs at hprompt with hid
    · rw [hid]
      omega
    · have hbelow := hindexed.below id prompt hprompt
      omega
  · exact (FiniteMap.len_insert_of_none hnone _).trans_le hroom
  · refine List.pairwise_append.mpr ⟨hindexed.ascending, List.pairwise_singleton _ _, ?_⟩
    intro first hfirst second hsecond
    rw [List.mem_singleton.mp hsecond]
    exact hindexed.order_below first hfirst
  · intro id prompt hprompt hpending
    refine List.mem_append.mpr ?_
    rw [hget] at hprompt
    split_ifs at hprompt with hid
    · exact .inr (List.mem_singleton.mpr hid)
    · exact .inl (hindexed.covered id prompt hprompt hpending)
  · intro id hmem
    rw [hnext]
    rcases List.mem_append.mp hmem with hold | hnew
    · have hbelow := hindexed.order_below id hold
      omega
    · rw [List.mem_singleton.mp hnew]
      omega

/-- Assumes: as for the index, and no token of the key. -/
theorem consistent_create (hconsistent : queue.Consistent)
    (hnone : queue.pendingByKey.get key = none)
    (hroom : queue.pendingByKey.len < queue.capacity) (hleft : queue.nextId.toNat + 1 < 2 ^ 64)
    (hfree : queue.Tokenless key) (createNow : Instant) :
    (queue.create createNow key).Consistent := by
  refine ⟨indexed_create hconsistent.indexed hnone hroom hleft createNow, fun other ↦ ?_⟩
  by_cases hother : other = key
  · subst hother
    refine ⟨fun hboth ↦ ?_, fun hboth ↦ hfree.2 hboth.2, fun hboth ↦ hfree.2 hboth.2⟩
    have hallow : (queue.onceAllows.get other).isSome := hboth.2
    rw [hfree.1] at hallow
    cases hallow
  · refine (hconsistent.exclusive other).mono ?_ id id
    change ((queue.pendingByKey.insert key queue.nextId).get other).isSome → _
    rw [FiniteMap.get_insert_of_ne _ hother]
    exact id

end Create

section Answer

variable {queue : PromptQueue} {id : UInt64} {prompt : Prompt}

/-- A queue with one prompt answered, before its token is left. -/
def close (queue : PromptQueue) (id : UInt64) (key : PromptKey) (verdict : Verdict)
    (scope : RuleScope) : PromptQueue :=
  { queue with
    prompts := queue.prompts.update id (Prompt.answeredWith verdict scope)
    pendingByKey := queue.pendingByKey.remove key }

/-- Closing a prompt leaves the other pending ones. -/
theorem pending_close_iff (queue : PromptQueue) (id : UInt64) (key : PromptKey)
    (verdict : Verdict) (scope : RuleScope) (other : UInt64) (found : Prompt) :
    ((queue.close id key verdict scope).prompts.get other = some found ∧
        found.state = .pending) ↔
      other ≠ id ∧ queue.prompts.get other = some found ∧ found.state = .pending := by
  have hget : (queue.close id key verdict scope).prompts.get other =
      if other = id then (queue.prompts.get other).map (Prompt.answeredWith verdict scope)
      else queue.prompts.get other := FiniteMap.get_update ..
  rw [hget]
  split_ifs with hother
  · refine iff_of_false ?_ fun hand ↦ hand.1 hother
    rintro ⟨hfound, hpending⟩
    obtain ⟨before, -, rfl⟩ := Option.map_eq_some_iff.mp hfound
    cases hpending
  · exact ⟨fun hand ↦ ⟨hother, hand⟩, fun hand ↦ hand.2⟩

/-- Assumes: the index, and a pending prompt. -/
theorem index_close (hindexed : queue.Indexed) (hget : queue.prompts.get id = some prompt)
    (hpending : prompt.state = .pending) (verdict : Verdict) (scope : RuleScope)
    (key : PromptKey) (other : UInt64) :
    (queue.close id prompt.key verdict scope).pendingByKey.get key = some other ↔
      ∃ found, (queue.close id prompt.key verdict scope).prompts.get other = some found ∧
        found.state = .pending ∧ found.key = key := by
  have hkey : queue.pendingByKey.get prompt.key = some id :=
    (hindexed.index prompt.key id).mpr ⟨prompt, hget, hpending, rfl⟩
  have hright : (∃ found, (queue.close id prompt.key verdict scope).prompts.get other =
        some found ∧ found.state = .pending ∧ found.key = key) ↔
      other ≠ id ∧ queue.pendingByKey.get key = some other := by
    rw [hindexed.index]
    constructor
    · rintro ⟨found, hfound, hopen, hsame⟩
      obtain ⟨hne, hbefore, -⟩ :=
        (queue.pending_close_iff id prompt.key verdict scope other found).mp ⟨hfound, hopen⟩
      exact ⟨hne, found, hbefore, hopen, hsame⟩
    · rintro ⟨hne, found, hbefore, hopen, hsame⟩
      obtain ⟨hfound, -⟩ :=
        (queue.pending_close_iff id prompt.key verdict scope other found).mpr ⟨hne, hbefore, hopen⟩
      exact ⟨found, hfound, hopen, hsame⟩
  rw [hright]
  change (queue.pendingByKey.remove prompt.key).get key = some other ↔ _
  rw [FiniteMap.get_remove]
  split_ifs with hsame
  · subst hsame
    rw [hkey]
    exact iff_of_false (by simp) fun hand ↦ hand.1 (Option.some.inj hand.2).symm
  · refine ⟨fun hother ↦ ⟨?_, hother⟩, fun hand ↦ hand.2⟩
    -- The answered prompt is found from its own key only.
    rintro rfl
    obtain ⟨found, hfound, -, rfl⟩ := (hindexed.index key other).mp hother
    obtain rfl := Option.some.inj (hget.symm.trans hfound)
    exact hsame rfl

/-- Assumes: the index, and a pending prompt. -/
theorem indexed_close (hindexed : queue.Indexed) (hget : queue.prompts.get id = some prompt)
    (hpending : prompt.state = .pending) (verdict : Verdict) (scope : RuleScope) :
    (queue.close id prompt.key verdict scope).Indexed := by
  have hbefore : ∀ other found,
      (queue.close id prompt.key verdict scope).prompts.get other = some found →
      ∃ before, queue.prompts.get other = some before ∧ before.id = found.id := by
    intro other found hfound
    change (queue.prompts.update id _).get other = some found at hfound
    rw [FiniteMap.get_update] at hfound
    split_ifs at hfound
    · obtain ⟨before, hold, rfl⟩ := Option.map_eq_some_iff.mp hfound
      exact ⟨before, hold, rfl⟩
    · exact ⟨found, hfound, rfl⟩
  refine ⟨?_, ?_, index_close hindexed hget hpending verdict scope, ?_, hindexed.ascending, ?_,
    hindexed.order_below⟩
  · intro other found hfound
    obtain ⟨before, hold, hid⟩ := hbefore other found hfound
    exact hid ▸ hindexed.keyed other before hold
  · intro other found hfound
    obtain ⟨before, hold, -⟩ := hbefore other found hfound
    exact hindexed.below other before hold
  · exact (FiniteMap.len_remove_le _ _).trans hindexed.bounded
  · intro other found hfound hopen
    obtain ⟨-, hold, -⟩ :=
      (queue.pending_close_iff id prompt.key verdict scope other found).mp ⟨hfound, hopen⟩
    exact hindexed.covered other found hold hopen

/-- A token for a key that has nothing else. Assumes: it has no pending prompt and no token. -/
theorem consistent_leaveToken (hconsistent : queue.Consistent) {key : PromptKey}
    (hclosed : queue.pendingByKey.get key = none) (hfree : queue.Tokenless key)
    (verdict : Verdict) (scope : RuleScope) (insertNow : Instant) :
    (queue.leaveToken key verdict scope insertNow).Consistent := by
  have hnone : ¬ (queue.pendingByKey.get key).isSome := by simp [hclosed]
  have hallow : ¬ (queue.onceAllows.get key).isSome := by simp [hfree.1]
  unfold leaveToken
  split
  · refine ⟨hconsistent.indexed.of_eq rfl rfl rfl rfl rfl, fun other ↦ ?_⟩
    by_cases hother : other = key
    · subst hother
      exact ⟨fun hboth ↦ hnone hboth.1, fun hboth ↦ hnone hboth.1, fun hboth ↦ hfree.2 hboth.2⟩
    · refine (hconsistent.exclusive other).mono (fun hsome ↦ hsome) ?_ (fun hmem ↦ hmem)
      change ((queue.onceAllows.insert key insertNow).get other).isSome → _
      rw [FiniteMap.get_insert_of_ne _ hother]
      exact fun hsome ↦ hsome
  · refine ⟨hconsistent.indexed.of_eq rfl rfl rfl rfl rfl, fun other ↦ ?_⟩
    by_cases hother : other = key
    · subst hother
      exact ⟨fun hboth ↦ hnone hboth.1, fun hboth ↦ hnone hboth.1, fun hboth ↦ hallow hboth.1⟩
    · refine (hconsistent.exclusive other).mono (fun hsome ↦ hsome) (fun hsome ↦ hsome) ?_
      exact fun hmem ↦ (Finset.mem_insert.mp hmem).resolve_left hother
  · exact hconsistent

/-- The first answer to a prompt frees its key before it leaves a token for it. Assumes: a pending
prompt. -/
theorem consistent_record (hconsistent : queue.Consistent)
    (hget : queue.prompts.get id = some prompt) (hpending : prompt.state = .pending)
    (insertNow : Instant) (verdict : Verdict) (scope : RuleScope) :
    (queue.record insertNow id prompt.key verdict scope).Consistent := by
  have hkey : (queue.pendingByKey.get prompt.key).isSome := by
    rw [(hconsistent.indexed.index prompt.key id).mpr ⟨prompt, hget, hpending, rfl⟩]
    rfl
  have hfree : queue.Tokenless prompt.key := by
    have hexclusive := hconsistent.exclusive prompt.key
    refine ⟨?_, fun hmem ↦ hexclusive.pending_deny ⟨hkey, hmem⟩⟩
    rw [← Option.not_isSome_iff_eq_none]
    exact fun hsome ↦ hexclusive.pending_allow ⟨hkey, hsome⟩
  have hclosed : (queue.close id prompt.key verdict scope).Consistent := by
    refine ⟨indexed_close hconsistent.indexed hget hpending verdict scope, fun other ↦ ?_⟩
    refine (hconsistent.exclusive other).mono ?_ (fun hsome ↦ hsome) (fun hmem ↦ hmem)
    change ((queue.pendingByKey.remove prompt.key).get other).isSome → _
    rw [FiniteMap.get_remove]
    split_ifs
    · rintro ⟨⟩
    · exact fun hsome ↦ hsome
  exact consistent_leaveToken hclosed (FiniteMap.get_remove_self ..) hfree verdict scope insertNow

end Answer

theorem consistent_answer {queue : PromptQueue} (hconsistent : queue.Consistent)
    (expireNow insertNow : Instant) (id : UInt64) (verdict : Verdict) (scope : RuleScope) :
    (queue.answer expireNow insertNow id verdict scope).1.Consistent := by
  have hlive := consistent_expire hconsistent expireNow
  rcases queue.answer_cases expireNow insertNow id verdict scope with
    hsame | ⟨prompt, hget, hpending, hrecorded⟩
  · rw [hsame]
    exact hlive
  · rw [hrecorded]
    exact consistent_record hlive hget hpending insertNow verdict scope

/-- An answer leaves the capacity and the next id. -/
theorem frame_answer (queue : PromptQueue) (expireNow insertNow : Instant) (id : UInt64)
    (verdict : Verdict) (scope : RuleScope) :
    (queue.answer expireNow insertNow id verdict scope).1.capacity = queue.capacity ∧
      (queue.answer expireNow insertNow id verdict scope).1.nextId = queue.nextId := by
  unfold answer leaveToken
  dsimp only
  split
  · exact ⟨rfl, rfl⟩
  · split
    · exact ⟨rfl, rfl⟩
    · exact ⟨rfl, rfl⟩
    · split <;> exact ⟨rfl, rfl⟩

theorem capacity_enqueue (queue : PromptQueue) (expireNow createNow : Instant) (key : PromptKey) :
    (queue.enqueue expireNow createNow key).1.capacity = queue.capacity := by
  rcases queue.enqueue_cases expireNow createNow key with ⟨hsame, -⟩ | ⟨-, -, hafter⟩
  · rw [hsame]
    rfl
  · rw [hafter]
    rfl

/-! ### The list -/

/-- What the list of pending prompts returns: the unexpired pending prompts, by ascending id, with
distinct keys, and no more than the capacity. -/
structure ListsPending (queue : PromptQueue) (now : Instant) : Prop where
  mem_iff : ∀ prompt, prompt ∈ (queue.listPending now).2 ↔
    ∃ id, queue.prompts.get id = some prompt ∧ prompt.state = .pending ∧ now ≤ prompt.expiresAt
  ascending : (queue.listPending now).2.Pairwise fun first second ↦
    first.id.toNat < second.id.toNat
  distinct : ((queue.listPending now).2.map Prompt.key).Nodup
  bounded : (queue.listPending now).2.length ≤ queue.capacity

theorem mem_listPending_iff {queue : PromptQueue} (hindexed : queue.Indexed) (now : Instant)
    (prompt : Prompt) :
    prompt ∈ (queue.listPending now).2 ↔ ∃ id, queue.prompts.get id = some prompt ∧
      prompt.state = .pending ∧ now ≤ prompt.expiresAt := by
  have hlive := indexed_expire hindexed now
  change prompt ∈ (queue.expire now).order.filterMap _ ↔ _
  simp only [← pending_expire_iff hindexed.keyed now, List.mem_filterMap,
    Option.filter_eq_some_iff, decide_eq_true_eq]
  constructor
  · rintro ⟨id, -, hfound⟩
    exact ⟨id, hfound⟩
  · rintro ⟨id, hget, hpending⟩
    exact ⟨id, hlive.covered id prompt hget hpending, hget, hpending⟩

theorem ascending_listPending {queue : PromptQueue} (hindexed : queue.Indexed) (now : Instant) :
    (queue.listPending now).2.Pairwise fun first second ↦ first.id.toNat < second.id.toNat := by
  have hlive := indexed_expire hindexed now
  change ((queue.expire now).order.filterMap _).Pairwise _
  rw [List.pairwise_filterMap]
  refine hlive.ascending.imp fun {first second} hlt prompt hfirst later hsecond ↦ ?_
  obtain ⟨hget, -⟩ := Option.filter_eq_some_iff.mp hfirst
  obtain ⟨hget', -⟩ := Option.filter_eq_some_iff.mp hsecond
  rw [hlive.keyed first prompt hget, hlive.keyed second later hget']
  exact hlt

/-- A listed prompt is found from its key. Assumes: the index. -/
theorem index_of_mem_listPending {queue : PromptQueue} (hindexed : queue.Indexed) {now : Instant}
    {prompt : Prompt} (hmem : prompt ∈ (queue.listPending now).2) :
    ∃ id, queue.prompts.get id = some prompt ∧ queue.pendingByKey.get prompt.key = some id := by
  obtain ⟨id, hget, hpending, -⟩ := (mem_listPending_iff hindexed now prompt).mp hmem
  exact ⟨id, hget, (hindexed.index prompt.key id).mpr ⟨prompt, hget, hpending, rfl⟩⟩

/-- Assumes: the index. -/
theorem listsPending_of_indexed {queue : PromptQueue} (hindexed : queue.Indexed) (now : Instant) :
    queue.ListsPending now := by
  have hascending := ascending_listPending hindexed now
  have hnodup : (queue.listPending now).2.Nodup := by
    refine hascending.imp fun {first second} hlt heq ↦ ?_
    rw [heq] at hlt
    exact lt_irrefl _ hlt
  -- Two listed prompts with one key are found from it under one id.
  have hdistinct : ((queue.listPending now).2.map Prompt.key).Nodup := by
    refine (List.nodup_map_iff_inj_on hnodup).mpr fun first hfirst second hsecond hkey ↦ ?_
    obtain ⟨id, hget, hid⟩ := index_of_mem_listPending hindexed hfirst
    obtain ⟨id', hget', hid'⟩ := index_of_mem_listPending hindexed hsecond
    rw [hkey, hid'] at hid
    obtain rfl := Option.some.inj hid
    exact Option.some.inj (hget.symm.trans hget')
  refine ⟨mem_listPending_iff hindexed now, hascending, hdistinct, ?_⟩
  have hsubset : (queue.listPending now).2.map Prompt.key ⊆ queue.pendingByKey.keys := by
    intro key hkey
    obtain ⟨prompt, hmem, rfl⟩ := List.mem_map.mp hkey
    obtain ⟨id, -, hid⟩ := index_of_mem_listPending hindexed hmem
    rw [FiniteMap.mem_keys_iff, hid]
    rfl
  calc (queue.listPending now).2.length
      = ((queue.listPending now).2.map Prompt.key).length := (List.length_map _).symm
    _ ≤ queue.pendingByKey.keys.length := (List.subperm_of_subset hdistinct hsubset).length_le
    _ ≤ queue.capacity := hindexed.bounded

/-- The index by key is a bijection onto the pending prompts. Assumes: the index. -/
theorem bijOn_pendingByKey {queue : PromptQueue} (hindexed : queue.Indexed) :
    Set.BijOn (fun key ↦ queue.pendingByKey.get key)
      {key | (queue.pendingByKey.get key).isSome}
      {found | ∃ id prompt, found = some id ∧ queue.prompts.get id = some prompt ∧
        prompt.state = .pending} := by
  refine ⟨fun key hkey ↦ ?_, fun key hkey other _ heq ↦ ?_, ?_⟩
  · obtain ⟨id, hid⟩ := Option.isSome_iff_exists.mp hkey
    obtain ⟨prompt, hget, hpending, -⟩ := (hindexed.index key id).mp hid
    exact ⟨id, prompt, hid, hget, hpending⟩
  · obtain ⟨id, hid⟩ := Option.isSome_iff_exists.mp hkey
    obtain ⟨prompt, hget, -, rfl⟩ := (hindexed.index key id).mp hid
    obtain ⟨found, hfound, -, rfl⟩ := (hindexed.index other id).mp (heq.symm.trans hid)
    rw [Option.some.inj (hget.symm.trans hfound)]
  · rintro found ⟨id, prompt, rfl, hget, hpending⟩
    have hid := (hindexed.index prompt.key id).mpr ⟨prompt, hget, hpending, rfl⟩
    exact ⟨prompt.key, by simp [hid], hid⟩

end PromptQueue

/-! ### Decisions -/

/-- The id of a new prompt. -/
def EnqueueOutcome.createdId : EnqueueOutcome → Option UInt64
  | .created id => some id
  | .deduped _ => none
  | .full => none

namespace Policy

variable (clock : DecideClock) (reads : ProcReads) (event : TcpConnectEvent) (state : PolicyState)

/-- The queue after a decision has tried both tokens of a key. -/
def clearedPrompts (key : PromptKey) : PromptQueue :=
  ((state.prompts.takeOnceAllow clock.takeExpire clock.takeCheck key).1.consumeOnceDeny
    clock.denyExpire key).1

theorem capacity_clearedPrompts (key : PromptKey) :
    (clearedPrompts clock state key).capacity = state.prompts.capacity := by
  have htaken : (state.prompts.takeOnceAllow clock.takeExpire clock.takeCheck key).1.capacity =
      state.prompts.capacity := rfl
  rw [← htaken]
  rfl

theorem nextId_clearedPrompts (key : PromptKey) :
    (clearedPrompts clock state key).nextId = state.prompts.nextId := by
  rw [clearedPrompts, PromptQueue.nextId_consumeOnceDeny, PromptQueue.nextId_takeOnceAllow]

/-- The id of the prompt that a decision creates: no token answers the event, the rules ask, and
the key has no pending prompt in a queue with room. -/
def createdPrompt : Option UInt64 :=
  match attributeEvent reads event state.cache with
  | .ok (identity, _) =>
    let key := promptKey identity event
    let (prompts, allowed) := state.prompts.takeOnceAllow clock.takeExpire clock.takeCheck key
    if allowed then none
    else
      let (prompts, denied) := prompts.consumeOnceDeny clock.denyExpire key
      if denied then none
      else
        match state.rules.verdictFor (connectionFrom identity event clock.hostname state.dns).2 with
        | .prompt =>
          (prompts.enqueue clock.enqueueExpire clock.enqueueCreate key).2.createdId
        | _ => none
  | .error _ => none

/-- The rules enqueue the key exactly when their verdict is to ask. -/
theorem prompts_applyRuleVerdict (key : PromptKey) (prompts : PromptQueue) (verdict : Verdict) :
    (applyRuleVerdict clock key prompts verdict).1 = match verdict with
      | .prompt => (prompts.enqueue clock.enqueueExpire clock.enqueueCreate key).1
      | _ => prompts := by
  cases verdict with
  | allow => rfl
  | deny => rfl
  | prompt =>
    simp only [applyRuleVerdict]
    split <;> next heq => rw [heq]

/-- What the rules do to the prompts of an event that no token answers, with what they create. -/
theorem prompts_decideByRules_cases (identity : ProcessIdentity) :
    let verdict :=
      state.rules.verdictFor (connectionFrom identity event clock.hostname state.dns).2
    let enqueued := state.prompts.enqueue clock.enqueueExpire clock.enqueueCreate
      (promptKey identity event)
    (verdict ≠ .prompt ∧ (decideByRules clock identity event state).1.prompts = state.prompts) ∨
      (verdict = .prompt ∧ (decideByRules clock identity event state).1.prompts = enqueued.1) := by
  intro verdict enqueued
  have hprompts : (decideByRules clock identity event state).1.prompts =
      (applyRuleVerdict clock (promptKey identity event) state.prompts verdict).1 := rfl
  rw [hprompts, prompts_applyRuleVerdict]
  cases verdict with
  | allow => exact .inl ⟨by decide, rfl⟩
  | deny => exact .inl ⟨by decide, rfl⟩
  | prompt => exact .inr ⟨rfl, rfl⟩

section Untokened

variable {clock reads event state} {identity : ProcessIdentity} {cache : ProcessCache}
  (hallowed : (state.prompts.takeOnceAllow clock.takeExpire clock.takeCheck
    (promptKey identity event)).2 = false)
  (hdenied : ((state.prompts.takeOnceAllow clock.takeExpire clock.takeCheck
    (promptKey identity event)).1.consumeOnceDeny clock.denyExpire
      (promptKey identity event)).2 = false)

include hallowed hdenied

/-- The rules decide an event that no token answers. -/
theorem decideAttributed_of_untokened :
    decideAttributed clock identity event { state with cache } =
      decideByRules clock identity event
        { state with cache, prompts := clearedPrompts clock state (promptKey identity event) } := by
  rw [decideAttributed]
  dsimp only
  rw [hallowed, if_neg Bool.false_ne_true, hdenied, if_neg Bool.false_ne_true]
  rfl

theorem createdPrompt_of_untokened
    (hattributed : attributeEvent reads event state.cache = .ok (identity, cache)) :
    createdPrompt clock reads event state =
      match state.rules.verdictFor (connectionFrom identity event clock.hostname state.dns).2 with
      | .prompt => ((clearedPrompts clock state (promptKey identity event)).enqueue
          clock.enqueueExpire clock.enqueueCreate (promptKey identity event)).2.createdId
      | _ => none := by
  simp only [createdPrompt, hattributed, hallowed, hdenied, Bool.false_eq_true, if_false]
  rfl

end Untokened

/-- What a decision does to the prompts: nothing, or it takes the allow token of a key, or both
tokens, or it enqueues the key after it took both. -/
theorem prompts_decide_cases :
    ((decide clock reads event state).1.prompts = state.prompts ∧
      createdPrompt clock reads event state = none) ∨
    ∃ key,
      ((decide clock reads event state).1.prompts =
          (state.prompts.takeOnceAllow clock.takeExpire clock.takeCheck key).1 ∧
        createdPrompt clock reads event state = none) ∨
      ((decide clock reads event state).1.prompts = clearedPrompts clock state key ∧
        createdPrompt clock reads event state = none) ∨
      ((decide clock reads event state).1.prompts =
          ((clearedPrompts clock state key).enqueue clock.enqueueExpire
            clock.enqueueCreate key).1 ∧
        createdPrompt clock reads event state =
          ((clearedPrompts clock state key).enqueue clock.enqueueExpire
            clock.enqueueCreate key).2.createdId) := by
  cases hattributed : attributeEvent reads event state.cache with
  | error error => exact .inl (by simp [decide, createdPrompt, hattributed])
  | ok attributed =>
    obtain ⟨identity, cache⟩ := attributed
    refine .inr ⟨promptKey identity event, ?_⟩
    rw [decide_of_attributed clock reads event state hattributed]
    cases hallowed : (state.prompts.takeOnceAllow clock.takeExpire clock.takeCheck
        (promptKey identity event)).2 with
    | true =>
      refine .inl ⟨?_, by simp [createdPrompt, hattributed, hallowed]⟩
      simp [decideAttributed, hallowed]
    | false =>
      cases hdenied : ((state.prompts.takeOnceAllow clock.takeExpire clock.takeCheck
          (promptKey identity event)).1.consumeOnceDeny clock.denyExpire
            (promptKey identity event)).2 with
      | true =>
        refine .inr (.inl ⟨?_, by simp [createdPrompt, hattributed, hallowed, hdenied]⟩)
        simp [decideAttributed, hallowed, hdenied, clearedPrompts]
      | false =>
        rw [decideAttributed_of_untokened hallowed hdenied,
          createdPrompt_of_untokened hallowed hdenied hattributed]
        rcases prompts_decideByRules_cases clock event
          { state with cache, prompts := clearedPrompts clock state (promptKey identity event) }
          identity with ⟨hverdict, hprompts⟩ | ⟨hverdict, hprompts⟩
        · refine .inr (.inl ⟨hprompts, ?_⟩)
          split
          · next hprompt => exact absurd hprompt hverdict
          · rfl
        · refine .inr (.inr ⟨hprompts, ?_⟩)
          split
          · rfl
          · next hother => exact absurd hverdict hother

theorem capacity_decide :
    (decide clock reads event state).1.prompts.capacity = state.prompts.capacity := by
  rcases prompts_decide_cases clock reads event state with ⟨hprompts, -⟩ | ⟨key, hcases⟩
  · rw [hprompts]
  · rcases hcases with ⟨hprompts, -⟩ | ⟨hprompts, -⟩ | ⟨hprompts, -⟩
    · rw [hprompts]
      rfl
    · rw [hprompts, capacity_clearedPrompts]
    · rw [hprompts, PromptQueue.capacity_enqueue, capacity_clearedPrompts]

end Policy

/-! ### Steps -/

namespace PolicyOp

/-- The id of the prompt that an operation creates. -/
def created (state : PolicyState) : PolicyOp → Option UInt64
  | decide clock reads event => Policy.createdPrompt clock reads event state
  | _ => none

end PolicyOp

/-- What an operation does to the next id: a new prompt has it, and it grows by one with each. -/
structure Numbers (before after : UInt64) (created : Option UInt64) : Prop where
  same : created = none → after = before
  next : ∀ id, created = some id → id = before ∧ after = saturatingAdd before 1

theorem Numbers.of_eq {before after : UInt64} (hsame : after = before) :
    Numbers before after none :=
  ⟨fun _ ↦ hsame, fun _ hid ↦ by cases hid⟩

/-- Enqueuing a key keeps the invariant. Assumes: no token of the key, and an id that is left when
it creates a prompt. -/
theorem PromptQueue.consistent_enqueue {queue : PromptQueue} (hconsistent : queue.Consistent)
    (expireNow createNow : Instant) {key : PromptKey} (hfree : queue.Tokenless key)
    (hleft : (queue.enqueue expireNow createNow key).2.createdId ≠ none →
      queue.nextId.toNat + 1 < 2 ^ 64) :
    (queue.enqueue expireNow createNow key).1.Consistent ∧
      Numbers queue.nextId (queue.enqueue expireNow createNow key).1.nextId
        (queue.enqueue expireNow createNow key).2.createdId := by
  have hlive := consistent_expire hconsistent expireNow
  rcases queue.enqueue_cases expireNow createNow key with ⟨hsame, hnot⟩ | ⟨hnone, hroom, hafter⟩
  · have hcreated : (queue.enqueue expireNow createNow key).2.createdId = none := by
      cases houtcome : (queue.enqueue expireNow createNow key).2 with
      | created id => exact absurd houtcome (hnot id)
      | deduped id => rfl
      | full => rfl
    rw [hsame, hcreated]
    exact ⟨hlive, .of_eq rfl⟩
  · rw [hafter] at hleft ⊢
    refine ⟨consistent_create hlive hnone hroom (hleft (by simp [EnqueueOutcome.createdId]))
      (tokenless_expire hfree expireNow) createNow, by simp [EnqueueOutcome.createdId], ?_⟩
    intro id hid
    exact ⟨(Option.some.inj hid).symm, rfl⟩

namespace PolicyOp

/-- A decision keeps the invariant. Assumes: an id that is left when it creates a prompt. -/
theorem consistent_decide {state : PolicyState} (hconsistent : state.prompts.Consistent)
    (clock : DecideClock) (reads : ProcReads) (event : TcpConnectEvent)
    (hleft : Policy.createdPrompt clock reads event state ≠ none →
      state.prompts.nextId.toNat + 1 < 2 ^ 64) :
    (Policy.decide clock reads event state).1.prompts.Consistent ∧
      Numbers state.prompts.nextId (Policy.decide clock reads event state).1.prompts.nextId
        (Policy.createdPrompt clock reads event state) := by
  rcases Policy.prompts_decide_cases clock reads event state with
    ⟨hprompts, hcreated⟩ | ⟨key, hcases⟩
  · rw [hprompts, hcreated]
    exact ⟨hconsistent, .of_eq rfl⟩
  · have htaken :=
      PromptQueue.consistent_takeOnceAllow hconsistent clock.takeExpire clock.takeCheck key
    have hcleared : (Policy.clearedPrompts clock state key).Consistent :=
      PromptQueue.consistent_consumeOnceDeny htaken clock.denyExpire key
    rcases hcases with ⟨hprompts, hcreated⟩ | ⟨hprompts, hcreated⟩ | ⟨hprompts, hcreated⟩
    · rw [hprompts, hcreated]
      exact ⟨htaken, .of_eq (PromptQueue.nextId_takeOnceAllow ..)⟩
    · rw [hprompts, hcreated]
      exact ⟨hcleared, .of_eq (Policy.nextId_clearedPrompts clock state key)⟩
    · rw [hcreated, ← Policy.nextId_clearedPrompts clock state key] at hleft
      rw [hcreated, hprompts, ← Policy.nextId_clearedPrompts clock state key]
      have hfree := PromptQueue.tokenless_of_taken state.prompts clock.takeExpire clock.takeCheck
        clock.denyExpire key
      exact PromptQueue.consistent_enqueue hcleared _ _ hfree hleft

theorem capacity_step (state : PolicyState) (op : PolicyOp) :
    (op.step state).prompts.capacity = state.prompts.capacity := by
  cases op with
  | decide clock reads event => exact Policy.capacity_decide clock reads event state
  | answer expireNow insertNow id verdict scope =>
    exact (state.prompts.frame_answer expireNow insertNow id verdict scope).1
  | listPending now => rfl
  | ruleInsert rule =>
    simp only [step]
    split <;> rfl
  | ruleRemove id => rfl
  | dnsNote expireNow stampNow hostname ipv4 ttl =>
    simp only [step]
    split <;> rfl

/-- An operation keeps the invariant. Assumes: an id that is left when it creates a prompt. -/
theorem consistent_step {state : PolicyState} (hconsistent : state.prompts.Consistent)
    (op : PolicyOp)
    (hleft : op.created state ≠ none → state.prompts.nextId.toNat + 1 < 2 ^ 64) :
    (op.step state).prompts.Consistent ∧
      Numbers state.prompts.nextId (op.step state).prompts.nextId (op.created state) := by
  cases op with
  | decide clock reads event => exact consistent_decide hconsistent clock reads event hleft
  | answer expireNow insertNow id verdict scope =>
    refine ⟨PromptQueue.consistent_answer hconsistent expireNow insertNow id verdict scope, ?_⟩
    exact .of_eq (state.prompts.frame_answer expireNow insertNow id verdict scope).2
  | listPending now => exact ⟨PromptQueue.consistent_expire hconsistent now, .of_eq rfl⟩
  | ruleInsert rule =>
    have hprompts : (step state (.ruleInsert rule)).prompts = state.prompts := by
      simp only [step]
      split <;> rfl
    rw [hprompts]
    exact ⟨hconsistent, .of_eq rfl⟩
  | ruleRemove id => exact ⟨hconsistent, .of_eq rfl⟩
  | dnsNote expireNow stampNow hostname ipv4 ttl =>
    have hprompts : (step state (.dnsNote expireNow stampNow hostname ipv4 ttl)).prompts =
        state.prompts := by
      simp only [step]
      split <;> rfl
    rw [hprompts]
    exact ⟨hconsistent, .of_eq rfl⟩

end PolicyOp

section Runs

open Run

variable (start : PolicyState) (ops : List PolicyOp)

/-- The ids of the prompts that a run has created before an index, oldest first. -/
def createdIds (index : ℕ) : List UInt64 := log PolicyOp.step PolicyOp.created start ops index

variable {start} in
/-- The invariant along a run, whose prompts are numbered from one. Assumes: it holds at the start,
where the next id is one, and ids are left. -/
theorem consistent_policyAt (hstart : start.prompts.Consistent)
    (hone : start.prompts.nextId = 1) (index : ℕ)
    (hfew : (createdIds start ops index).length < 2 ^ 64 - 1) :
    (policyAt start ops index).prompts.Consistent ∧
      (policyAt start ops index).prompts.nextId.toNat =
        (createdIds start ops index).length + 1 ∧
      (createdIds start ops index).map UInt64.toNat =
        List.range' 1 (createdIds start ops index).length := by
  induction index with
  | zero =>
    refine ⟨hstart, ?_, rfl⟩
    change start.prompts.nextId.toNat = 1
    rw [hone]
    rfl
  | succ index ih =>
    cases hop : ops[index]? with
    | none =>
      have hlog : createdIds start ops (index + 1) = createdIds start ops index := by
        simp [createdIds, log, hop]
      have hstate : policyAt start ops (index + 1) = policyAt start ops index :=
        stateAt_succ_of_none PolicyOp.step start ops hop
      rw [hlog, hstate]
      exact ih (hlog ▸ hfew)
    | some op =>
      have hlog : createdIds start ops (index + 1) =
          createdIds start ops index ++ (op.created (policyAt start ops index)).toList := by
        simp [createdIds, log, hop, policyAt]
      have hstate : policyAt start ops (index + 1) = op.step (policyAt start ops index) :=
        stateAt_succ PolicyOp.step start ops hop
      rw [hlog, List.length_append] at hfew
      obtain ⟨hbefore, hnext, hids⟩ := ih (by omega)
      have hleft : op.created (policyAt start ops index) ≠ none →
          (policyAt start ops index).prompts.nextId.toNat + 1 < 2 ^ 64 := by
        intro hcreated
        obtain ⟨id, hid⟩ := Option.ne_none_iff_exists'.mp hcreated
        rw [hid, Option.toList_some, List.length_singleton] at hfew
        omega
      obtain ⟨hafter, hnumbers⟩ := PolicyOp.consistent_step hbefore op hleft
      rw [hlog, hstate]
      refine ⟨hafter, ?_⟩
      cases hcreated : op.created (policyAt start ops index) with
      | none =>
        rw [hnumbers.same hcreated, Option.toList_none, List.append_nil]
        exact ⟨hnext, hids⟩
      | some id =>
        obtain ⟨hid, hgrown⟩ := hnumbers.next id hcreated
        rw [hgrown, toNat_saturatingAdd_one (hleft (by simp [hcreated])), Option.toList_some,
          List.length_append, List.length_singleton, List.map_append, hids, List.map_singleton,
          hid, hnext, List.range'_concat]
        exact ⟨rfl, by simp [Nat.add_comm]⟩

/-- What the collections of the queue represent, for a bound on its pending prompts. -/
structure PromptQueue.Represented (capacity : ℕ) (queue : PromptQueue) : Prop where
  index : ∀ key id, queue.pendingByKey.get key = some id ↔
    ∃ prompt, queue.prompts.get id = some prompt ∧ prompt.state = .pending ∧ prompt.key = key
  bijection : Set.BijOn (fun key ↦ queue.pendingByKey.get key)
    {key | (queue.pendingByKey.get key).isSome}
    {found | ∃ id prompt, found = some id ∧ queue.prompts.get id = some prompt ∧
      prompt.state = .pending}
  lists : ∀ now, queue.ListsPending now
  capacity_eq : queue.capacity = capacity
  exclusive : ∀ key, queue.Exclusive key

/-- In every run of decisions, answers, lists and changes of the rules and the names from the empty
queue, no id is given twice, and before every operation and at the end the collections of the queue
represent its pending prompts and tokens. Assumes: the run creates fewer prompts than there are
ids. -/
theorem prompt_queue_represented (rules : RuleSet) (cache : ProcessCache) (dns : DnsCache)
    (recent : RecentConnects) (capacity : ℕ) (hcapacity : 0 < capacity) (ttl : Duration) :
    let start : PolicyState :=
      { rules, cache, prompts := .new capacity hcapacity ttl, dns, recent }
    (createdIds start ops ops.length).length < 2 ^ 64 - 1 →
    (createdIds start ops ops.length).Nodup ∧
      ∀ index ≤ ops.length, (policyAt start ops index).prompts.Represented capacity := by
  intro start hfew
  have hstart : start.prompts.Consistent := PromptQueue.consistent_new capacity hcapacity ttl
  refine ⟨?_, fun index hle ↦ ?_⟩
  · obtain ⟨-, -, hids⟩ := consistent_policyAt ops hstart rfl ops.length hfew
    refine List.Nodup.of_map UInt64.toNat ?_
    rw [hids]
    exact List.nodup_range'
  · have hlog := (log_grows PolicyOp.step PolicyOp.created start ops hle).length_le
    obtain ⟨hconsistent, -, -⟩ :=
      consistent_policyAt ops hstart rfl index (hlog.trans_lt hfew)
    have hsame : (policyAt start ops index).prompts.capacity = capacity :=
      stateAt_invariant PolicyOp.step start ops (fun state ↦ state.prompts.capacity = capacity) rfl
        (fun state op hbefore ↦ (PolicyOp.capacity_step state op).trans hbefore) index
    exact ⟨hconsistent.indexed.index, PromptQueue.bijOn_pendingByKey hconsistent.indexed,
      PromptQueue.listsPending_of_indexed hconsistent.indexed, hsame, hconsistent.exclusive⟩

theorem curlRun_represented :
    let start : PolicyState :=
      { rules := .default, cache := .new 1 Nat.one_pos, prompts := .new 1 Nat.one_pos 60,
        dns := .new 1 Nat.one_pos 60, recent := .new 1 1 Nat.one_pos Nat.one_pos }
    (createdIds start curlRun 3).Nodup ∧
      ∀ index ≤ 3, (policyAt start curlRun index).prompts.Represented 1 := by
  intro start
  have hlength := length_log_le PolicyOp.step PolicyOp.created start curlRun 3
  exact prompt_queue_represented curlRun .default (.new 1 Nat.one_pos) (.new 1 Nat.one_pos 60)
    (.new 1 1 Nat.one_pos Nat.one_pos) 1 Nat.one_pos 60 (hlength.trans_lt (by decide))

end Runs

end InterFire
