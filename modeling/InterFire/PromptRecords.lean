import InterFire.Prompts

/-!
# What the queue does to its prompts

The map from ids to prompts under the operations of the queue. A prompt keeps its id and its key for
as long as the queue exists: the housekeeping may only mark it expired (`get_expire`), the first
answer to a pending prompt marks it answered with its verdict and scope (`answer_of_pending`), and
any other answer changes nothing more than the housekeeping does (`answer_of_answered`,
`answer_of_expired`, `answer_of_missing`); `answer_cases` are the two things that an answer makes of
the queue. `get_enqueue` says where a new prompt appears.
`Extends` puts them together: no operation takes a prompt away or changes its key, as long as the id
of a new prompt is free. What holds of the keys and the expiries that are enqueued holds of every
prompt (`Each`).
-/

set_option autoImplicit false
set_option relaxedAutoImplicit false

namespace InterFire

/-- The prompt marked expired. -/
def Prompt.expired (prompt : Prompt) : Prompt := { prompt with state := .expired }

/-- The prompt marked answered. -/
def Prompt.answeredWith (verdict : Verdict) (scope : RuleScope) (prompt : Prompt) : Prompt :=
  { prompt with state := .answered, answerVerdict := some verdict, answerScope := some scope }

namespace PromptQueue

/-- The queue that the daemon starts with. -/
def withDefaults : PromptQueue := new 100 (Nat.zero_lt_succ 99) (Duration.fromSecs 60)

/-! ### Housekeeping -/

/-- Marking prompts expired marks those that are listed. -/
theorem prompts_foldl_expirePrompt (expired : List (UInt64 × PromptKey))
    (maps : FiniteMap UInt64 Prompt × FiniteMap PromptKey UInt64) (id : UInt64) :
    (expired.foldl expirePrompt maps).1.get id =
      if id ∈ expired.map Prod.fst then (maps.1.get id).map Prompt.expired
      else maps.1.get id := by
  induction expired generalizing maps with
  | nil => rfl
  | cons first rest ih =>
    -- A prompt that is marked twice is marked once.
    have htwice : ((maps.1.get id).map Prompt.expired).map Prompt.expired =
        (maps.1.get id).map Prompt.expired := by
      rw [Option.map_map]
      rfl
    have hfirst : (expirePrompt maps first).1.get id =
        if id = first.1 then (maps.1.get id).map Prompt.expired else maps.1.get id :=
      FiniteMap.get_update ..
    rw [List.foldl_cons, ih, hfirst, List.map_cons]
    by_cases hid : id = first.1
    · rw [if_pos hid, if_pos (List.mem_cons.mpr (.inl hid)), htwice, ite_self]
    · simp only [List.mem_cons, hid, false_or, if_false]

/-- The housekeeping leaves the prompt of an id as it is or marks it expired. -/
theorem get_expire (queue : PromptQueue) (now : Instant) (id : UInt64) :
    (queue.expire now).prompts.get id = queue.prompts.get id ∨
      (queue.expire now).prompts.get id = (queue.prompts.get id).map Prompt.expired := by
  have hmarked := prompts_foldl_expirePrompt
    ((queue.prompts.values.filter fun prompt ↦
      prompt.state = .pending && prompt.expiresAt < now).map fun prompt ↦ (prompt.id, prompt.key))
    (queue.prompts, queue.pendingByKey) id
  split_ifs at hmarked
  · exact .inr hmarked
  · exact .inl hmarked

/-- A prompt before the housekeeping is there after it, with its key and its answer. Assumes: it was
there. -/
theorem exists_get_expire {queue : PromptQueue} {id : UInt64} {prompt : Prompt}
    (hget : queue.prompts.get id = some prompt) (now : Instant) :
    ∃ after, (queue.expire now).prompts.get id = some after ∧
      (after = prompt ∨ after = prompt.expired) := by
  rcases queue.get_expire now id with hsame | hmarked
  · exact ⟨prompt, hsame.trans hget, .inl rfl⟩
  · exact ⟨prompt.expired, by rw [hmarked, hget]; rfl, .inr rfl⟩

/-- A prompt after the housekeeping was there before it. Assumes: it is there. -/
theorem exists_of_get_expire {queue : PromptQueue} {now : Instant} {id : UInt64} {after : Prompt}
    (hget : (queue.expire now).prompts.get id = some after) :
    ∃ prompt, queue.prompts.get id = some prompt ∧ (after = prompt ∨ after = prompt.expired) := by
  cases hbefore : queue.prompts.get id with
  | none =>
    rcases queue.get_expire now id with hsame | hmarked
    · rw [hsame, hbefore] at hget
      cases hget
    · rw [hmarked, hbefore] at hget
      cases hget
  | some prompt =>
    obtain ⟨found, hfound, hcases⟩ := exists_get_expire hbefore now
    obtain rfl := Option.some.inj (hget.symm.trans hfound)
    exact ⟨prompt, rfl, hcases⟩

@[simp] theorem nextId_expire (queue : PromptQueue) (now : Instant) :
    (queue.expire now).nextId = queue.nextId := rfl

/-! ### Answers -/

section Answers

variable {queue : PromptQueue} {expireNow : Instant} {id : UInt64} {prompt : Prompt}

/-- A queue with one prompt answered and its token left. -/
def record (queue : PromptQueue) (insertNow : Instant) (id : UInt64) (key : PromptKey)
    (verdict : Verdict) (scope : RuleScope) : PromptQueue :=
  leaveToken
    { queue with
      prompts := queue.prompts.update id (Prompt.answeredWith verdict scope)
      pendingByKey := queue.pendingByKey.remove key }
    key verdict scope insertNow

/-- The first answer to a prompt. Assumes: the prompt is pending after the housekeeping. -/
theorem answer_of_pending (hget : (queue.expire expireNow).prompts.get id = some prompt)
    (hpending : prompt.state = .pending) (insertNow : Instant) (verdict : Verdict)
    (scope : RuleScope) :
    queue.answer expireNow insertNow id verdict scope =
      ((queue.expire expireNow).record insertNow id prompt.key verdict scope,
        .ok ⟨id, prompt.key, verdict, scope, false⟩) := by
  simp only [answer, hget, hpending]
  rfl

/-- A repeated answer. Assumes: the prompt is answered after the housekeeping. -/
theorem answer_of_answered (hget : (queue.expire expireNow).prompts.get id = some prompt)
    (hanswered : prompt.state = .answered) (insertNow : Instant) (verdict : Verdict)
    (scope : RuleScope) :
    queue.answer expireNow insertNow id verdict scope =
      (queue.expire expireNow,
        .ok ⟨id, prompt.key, prompt.answerVerdict.getD verdict, prompt.answerScope.getD scope,
          true⟩) := by
  simp only [answer, hget, hanswered]

/-- A late answer. Assumes: the prompt is expired after the housekeeping. -/
theorem answer_of_expired (hget : (queue.expire expireNow).prompts.get id = some prompt)
    (hexpired : prompt.state = .expired) (insertNow : Instant) (verdict : Verdict)
    (scope : RuleScope) :
    queue.answer expireNow insertNow id verdict scope =
      (queue.expire expireNow, .error .expired) := by
  simp only [answer, hget, hexpired]

/-- An answer to nothing. Assumes: there is no prompt with the id. -/
theorem answer_of_missing (hget : (queue.expire expireNow).prompts.get id = none)
    (insertNow : Instant) (verdict : Verdict) (scope : RuleScope) :
    queue.answer expireNow insertNow id verdict scope =
      (queue.expire expireNow, .error .notFound) := by
  simp only [answer, hget]

/-- What an answer makes of the queue: the housekeeping, and when it is the first answer to a prompt
its record. -/
theorem answer_cases (queue : PromptQueue) (expireNow insertNow : Instant) (id : UInt64)
    (verdict : Verdict) (scope : RuleScope) :
    (queue.answer expireNow insertNow id verdict scope).1 = queue.expire expireNow ∨
    ∃ prompt, (queue.expire expireNow).prompts.get id = some prompt ∧ prompt.state = .pending ∧
      (queue.answer expireNow insertNow id verdict scope).1 =
        (queue.expire expireNow).record insertNow id prompt.key verdict scope := by
  cases hget : (queue.expire expireNow).prompts.get id with
  | none =>
    rw [answer_of_missing hget]
    exact .inl rfl
  | some prompt =>
    cases hstate : prompt.state with
    | expired =>
      rw [answer_of_expired hget hstate]
      exact .inl rfl
    | answered =>
      rw [answer_of_answered hget hstate]
      exact .inl rfl
    | pending =>
      rw [answer_of_pending hget hstate]
      exact .inr ⟨prompt, rfl, hstate, rfl⟩

theorem prompts_leaveToken (queue : PromptQueue) (key : PromptKey) (verdict : Verdict)
    (scope : RuleScope) (insertNow : Instant) :
    (queue.leaveToken key verdict scope insertNow).prompts = queue.prompts := by
  unfold leaveToken
  split <;> rfl

/-- The prompts after the first answer to one of them. -/
theorem get_record (queue : PromptQueue) (insertNow : Instant) (id other : UInt64)
    (key : PromptKey) (verdict : Verdict) (scope : RuleScope) :
    (queue.record insertNow id key verdict scope).prompts.get other =
      if other = id then (queue.prompts.get other).map (Prompt.answeredWith verdict scope)
      else queue.prompts.get other := by
  rw [record, prompts_leaveToken, FiniteMap.get_update]

end Answers

/-! ### New prompts -/

/-- The prompt that a key gets. -/
def newPrompt (queue : PromptQueue) (createNow : Instant) (key : PromptKey) : Prompt :=
  { id := queue.nextId, key, state := .pending, createdAt := createNow,
    expiresAt := createNow + queue.ttl, answerVerdict := none, answerScope := none }

/-- Enqueuing a key changes the prompts as the housekeeping does, or adds one under the next id. -/
theorem get_enqueue (queue : PromptQueue) (expireNow createNow : Instant) (key : PromptKey) :
    ((queue.enqueue expireNow createNow key).1.nextId = queue.nextId ∧
      (queue.enqueue expireNow createNow key).1.prompts = (queue.expire expireNow).prompts) ∨
    ((queue.enqueue expireNow createNow key).1.nextId = saturatingAdd queue.nextId 1 ∧
      (queue.enqueue expireNow createNow key).1.prompts =
        (queue.expire expireNow).prompts.insert queue.nextId (queue.newPrompt createNow key)) := by
  unfold enqueue
  dsimp only
  split
  · exact .inl ⟨rfl, rfl⟩
  · split_ifs
    · exact .inl ⟨rfl, rfl⟩
    · exact .inr ⟨rfl, rfl⟩

/-! ### Lasting keys -/

/-- Every prompt is stored under its own id. -/
def Keyed (queue : PromptQueue) : Prop :=
  ∀ id prompt, queue.prompts.get id = some prompt → prompt.id = id

/-- The prompts of the first queue are in the second one, with their keys. -/
structure Extends (before after : PromptQueue) : Prop where
  keys : ∀ id prompt, before.prompts.get id = some prompt →
    ∃ later, after.prompts.get id = some later ∧ later.key = prompt.key
  keyed : before.Keyed → after.Keyed

theorem Extends.refl (queue : PromptQueue) : Extends queue queue :=
  ⟨fun _ prompt hget ↦ ⟨prompt, hget, rfl⟩, id⟩

theorem Extends.trans {first second third : PromptQueue} (hfirst : Extends first second)
    (hsecond : Extends second third) : Extends first third := by
  refine ⟨fun id prompt hget ↦ ?_, hsecond.keyed ∘ hfirst.keyed⟩
  obtain ⟨later, hlater, hkey⟩ := hfirst.keys id prompt hget
  obtain ⟨last, hlast, hsame⟩ := hsecond.keys id later hlater
  exact ⟨last, hlast, hsame.trans hkey⟩

theorem extends_expire (queue : PromptQueue) (now : Instant) :
    Extends queue (queue.expire now) := by
  refine ⟨fun id prompt hget ↦ ?_, fun hkeyed id after hafter ↦ ?_⟩
  · obtain ⟨after, hafter, rfl | rfl⟩ := exists_get_expire hget now
    · exact ⟨after, hafter, rfl⟩
    · exact ⟨prompt.expired, hafter, rfl⟩
  · obtain ⟨prompt, hget, rfl | rfl⟩ := exists_of_get_expire hafter
    · exact hkeyed id after hget
    · exact hkeyed id prompt hget

theorem extends_record (queue : PromptQueue) (insertNow : Instant) (id : UInt64) (key : PromptKey)
    (verdict : Verdict) (scope : RuleScope) :
    Extends queue (queue.record insertNow id key verdict scope) := by
  refine ⟨fun other prompt hget ↦ ?_, fun hkeyed other after hafter ↦ ?_⟩
  · rw [get_record, hget]
    split_ifs
    · exact ⟨_, rfl, rfl⟩
    · exact ⟨prompt, rfl, rfl⟩
  · rw [get_record] at hafter
    split_ifs at hafter
    · obtain ⟨prompt, hget, rfl⟩ := Option.map_eq_some_iff.mp hafter
      exact hkeyed other prompt hget
    · exact hkeyed other after hafter

/-- Enqueuing takes no prompt away. Assumes: no earlier prompt has the next id. -/
theorem extends_enqueue {queue : PromptQueue} (hfree : queue.prompts.get queue.nextId = none)
    (expireNow createNow : Instant) (key : PromptKey) :
    Extends queue (queue.enqueue expireNow createNow key).1 := by
  have hexpire := queue.extends_expire expireNow
  rcases queue.get_enqueue expireNow createNow key with ⟨_, hprompts⟩ | ⟨_, hprompts⟩
  · refine ⟨fun id prompt hget ↦ ?_, fun hkeyed id prompt hget ↦ ?_⟩
    · rw [hprompts]
      exact hexpire.keys id prompt hget
    · rw [hprompts] at hget
      exact hexpire.keyed hkeyed id prompt hget
  · refine ⟨fun id prompt hget ↦ ?_, fun hkeyed id prompt hget ↦ ?_⟩
    · have hne : id ≠ queue.nextId := by
        rintro rfl
        rw [hfree] at hget
        cases hget
      rw [hprompts, FiniteMap.get_insert_of_ne _ hne]
      exact hexpire.keys id prompt hget
    · rw [hprompts, FiniteMap.get_insert] at hget
      split_ifs at hget with hid
      · obtain rfl := Option.some.inj hget
        exact hid.symm
      · exact hexpire.keyed hkeyed id prompt hget

/-! ### What every prompt satisfies -/

/-- Every prompt has a key and an expiry with a property. -/
def Each (property : PromptKey → Instant → Prop) (queue : PromptQueue) : Prop :=
  ∀ id prompt, queue.prompts.get id = some prompt → property prompt.key prompt.expiresAt

section Each

variable {property : PromptKey → Instant → Prop} {queue : PromptQueue}

theorem each_new {capacity : ℕ} (hcapacity : 0 < capacity) (ttl : Duration) :
    (new capacity hcapacity ttl).Each property := by
  intro id prompt hget
  have hnone : (new capacity hcapacity ttl).prompts.get id = none := FiniteMap.get_empty id
  rw [hnone] at hget
  cases hget

theorem each_expire (heach : queue.Each property) (now : Instant) :
    (queue.expire now).Each property := by
  intro id after hafter
  obtain ⟨prompt, hget, rfl | rfl⟩ := exists_of_get_expire hafter
  · exact heach id after hget
  · exact heach id prompt hget

theorem each_takeOnceAllow (heach : queue.Each property) (expireNow checkNow : Instant)
    (key : PromptKey) : (queue.takeOnceAllow expireNow checkNow key).1.Each property :=
  each_expire heach expireNow

theorem each_consumeOnceDeny (heach : queue.Each property) (now : Instant) (key : PromptKey) :
    (queue.consumeOnceDeny now key).1.Each property :=
  each_expire heach now

theorem each_answer (heach : queue.Each property) (expireNow insertNow : Instant) (id : UInt64)
    (verdict : Verdict) (scope : RuleScope) :
    (queue.answer expireNow insertNow id verdict scope).1.Each property := by
  have hexpired := each_expire heach expireNow
  rcases queue.answer_cases expireNow insertNow id verdict scope with
    hsame | ⟨prompt, -, -, hrecorded⟩
  · rw [hsame]
    exact hexpired
  · rw [hrecorded]
    intro other after hafter
    rw [get_record] at hafter
    split_ifs at hafter
    · obtain ⟨before, hbefore, rfl⟩ := Option.map_eq_some_iff.mp hafter
      exact hexpired other before hbefore
    · exact hexpired other after hafter

/-- Enqueuing keeps the property. Assumes: the prompts have it, and so does one that is created. -/
theorem each_enqueue {expireNow createNow : Instant} {key : PromptKey}
    (heach : queue.Each property)
    (hnew : ∀ id, (queue.enqueue expireNow createNow key).2 = .created id →
      property key (createNow + queue.ttl)) :
    (queue.enqueue expireNow createNow key).1.Each property := by
  have hexpired := each_expire heach expireNow
  unfold enqueue at hnew ⊢
  dsimp only at hnew ⊢
  split
  · exact hexpired
  · next hnone =>
    rw [hnone] at hnew
    dsimp only at hnew
    split_ifs at hnew ⊢ with hfull
    · exact hexpired
    · intro id prompt hget
      rw [FiniteMap.get_insert] at hget
      split_ifs at hget
      · obtain rfl := Option.some.inj hget
        exact hnew _ rfl
      · exact hexpired id prompt hget

/-- The pending prompts have the property. Assumes: every prompt has it. -/
theorem each_of_mem_listPending (heach : queue.Each property) {now : Instant} {prompt : Prompt}
    (hmem : prompt ∈ (queue.listPending now).2) : property prompt.key prompt.expiresAt := by
  obtain ⟨id, _, hget⟩ := List.mem_filterMap.mp hmem
  exact each_expire heach now id prompt (Option.filter_eq_some_iff.mp hget).1

end Each

end PromptQueue

end InterFire
