import Mathlib.Data.Finset.Card
import InterFire.Basic
import InterFire.Library.FiniteMap
import InterFire.Rules

/-!
# The prompt queue

`crates/interfire-daemon/src/prompts.rs`: pending prompts with expiry and deduplication, answers
that are idempotent, and one-shot tokens. An answer with scope once leaves a token for its key: an
allow token with the instant it was created, or a deny token. Every operation first runs `expire`.

Each `Instant::now()` of the source is an argument of the model: the operations that read the clock
twice take two instants, and nothing is assumed about them here.

The lemmas say what each operation does to the allow tokens, which is what the consent argument
needs: `expire`, `consumeOnceDeny`, `enqueue` and `listPending` only drop them, `takeOnceAllow`
drops the token of its key and succeeds only on a fresh one, and `answer` creates one exactly when
it is the first answer to its prompt and says allow once (`Answered.grantsOnce`).
-/

set_option autoImplicit false
set_option relaxedAutoImplicit false

namespace InterFire

/-- The scope an answer asks for. -/
inductive RuleScope
  | once
  | session
  | permanent
  deriving DecidableEq, Repr

inductive PromptState
  | pending
  | answered
  | expired
  deriving DecidableEq, Repr

/-- The identity under which pending prompts coalesce. -/
structure PromptKey where
  executable : String
  ipv4 : UInt32
  port : UInt16
  deriving DecidableEq, Repr

/-- The destination of a key as the prompt list shows it. -/
def PromptKey.ipv4Display (key : PromptKey) : String := (Octets.toNeBytes key.ipv4).toText

structure Prompt where
  id : UInt64
  key : PromptKey
  state : PromptState
  createdAt : Instant
  expiresAt : Instant
  answerVerdict : Option Verdict
  answerScope : Option RuleScope
  deriving DecidableEq, Repr

inductive EnqueueOutcome
  | created (id : UInt64)
  | deduped (id : UInt64)
  | full
  deriving DecidableEq, Repr

structure Answered where
  id : UInt64
  key : PromptKey
  verdict : Verdict
  scope : RuleScope
  duplicate : Bool
  deriving DecidableEq, Repr

/-- The answer is the first one to its prompt and says allow once. -/
def Answered.grantsOnce (answered : Answered) : Bool :=
  !answered.duplicate && answered.verdict = .allow && answered.scope = .once

inductive AnswerError
  | notFound
  | expired
  deriving DecidableEq, Repr

/-- Pending and past prompts, and the tokens of answers with scope once. -/
structure PromptQueue where
  capacity : ℕ
  capacity_pos : 0 < capacity
  ttl : Duration
  nextId : UInt64
  order : List UInt64
  prompts : FiniteMap UInt64 Prompt
  pendingByKey : FiniteMap PromptKey UInt64
  onceAllows : FiniteMap PromptKey Instant
  onceDenies : Finset PromptKey

namespace PromptQueue

/-- The empty queue. -/
def new (capacity : ℕ) (hcapacity : 0 < capacity) (ttl : Duration) : PromptQueue :=
  { capacity, capacity_pos := hcapacity, ttl, nextId := 1, order := [], prompts := .empty,
    pendingByKey := .empty, onceAllows := .empty, onceDenies := ∅ }

/-- Whether the prompt of an id is pending. -/
def isPending (prompts : FiniteMap UInt64 Prompt) (id : UInt64) : Bool :=
  (prompts.get id).any (·.state = .pending)

/-- Mark a prompt expired and free its key. -/
def expirePrompt (maps : FiniteMap UInt64 Prompt × FiniteMap PromptKey UInt64)
    (expired : UInt64 × PromptKey) : FiniteMap UInt64 Prompt × FiniteMap PromptKey UInt64 :=
  (maps.1.update expired.1 fun prompt ↦ { prompt with state := .expired },
    maps.2.remove expired.2)

/-- The housekeeping every operation starts with: pending prompts past their instant expire, the
order keeps the pending ids, stale allow tokens go, and the deny tokens are cleared when there are
more of them than the capacity. -/
def expire (queue : PromptQueue) (now : Instant) : PromptQueue :=
  let expired := (queue.prompts.values.filter fun prompt ↦
    prompt.state = .pending && prompt.expiresAt < now).map fun prompt ↦ (prompt.id, prompt.key)
  let (prompts, pendingByKey) := expired.foldl expirePrompt (queue.prompts, queue.pendingByKey)
  { queue with
    prompts, pendingByKey
    order := queue.order.filter (isPending prompts)
    onceAllows := queue.onceAllows.retain fun _ inserted ↦ now ≤ inserted + queue.ttl
    onceDenies := if queue.capacity < queue.onceDenies.card then ∅ else queue.onceDenies }

/-- Remove the allow token of a key, and whether it was still fresh when the clock was read
again. -/
def takeOnceAllow (queue : PromptQueue) (expireNow checkNow : Instant) (key : PromptKey) :
    PromptQueue × Bool :=
  let queue := queue.expire expireNow
  ({ queue with onceAllows := queue.onceAllows.remove key },
    (queue.onceAllows.get key).any fun inserted ↦ checkNow ≤ inserted + queue.ttl)

/-- Remove the deny token of a key, and whether there was one. -/
def consumeOnceDeny (queue : PromptQueue) (now : Instant) (key : PromptKey) : PromptQueue × Bool :=
  let queue := queue.expire now
  ({ queue with onceDenies := queue.onceDenies.erase key }, key ∈ queue.onceDenies)

/-- Coalesce with the pending prompt of the key, refuse when the queue is full, or create a
prompt. -/
def enqueue (queue : PromptQueue) (expireNow createNow : Instant) (key : PromptKey) :
    PromptQueue × EnqueueOutcome :=
  let queue := queue.expire expireNow
  match queue.pendingByKey.get key with
  | some id => (queue, .deduped id)
  | none =>
    if queue.capacity ≤ queue.pendingByKey.len then (queue, .full)
    else
      let id := queue.nextId
      let prompt : Prompt :=
        { id, key, state := .pending, createdAt := createNow, expiresAt := createNow + queue.ttl,
          answerVerdict := none, answerScope := none }
      ({ queue with
          nextId := saturatingAdd queue.nextId 1
          prompts := queue.prompts.insert id prompt
          order := queue.order ++ [id]
          pendingByKey := queue.pendingByKey.insert key id },
        .created id)

/-- The pending prompts, oldest first. -/
def listPending (queue : PromptQueue) (now : Instant) : PromptQueue × List Prompt :=
  let queue := queue.expire now
  (queue, queue.order.filterMap fun id ↦
    (queue.prompts.get id).filter (·.state = .pending))

/-- The token an answer leaves for its key. -/
def leaveToken (queue : PromptQueue) (key : PromptKey) (verdict : Verdict) (scope : RuleScope)
    (insertNow : Instant) : PromptQueue :=
  match verdict, scope with
  | .allow, .once => { queue with onceAllows := queue.onceAllows.insert key insertNow }
  | .deny, .once => { queue with onceDenies := insert key queue.onceDenies }
  | _, _ => queue

/-- Answer a prompt. A repeated answer returns the recorded decision and changes nothing. -/
def answer (queue : PromptQueue) (expireNow insertNow : Instant) (id : UInt64) (verdict : Verdict)
    (scope : RuleScope) : PromptQueue × Except AnswerError Answered :=
  let queue := queue.expire expireNow
  match queue.prompts.get id with
  | none => (queue, .error .notFound)
  | some prompt =>
    match prompt.state with
    | .expired => (queue, .error .expired)
    | .answered =>
      (queue, .ok
        { id, key := prompt.key, verdict := prompt.answerVerdict.getD verdict,
          scope := prompt.answerScope.getD scope, duplicate := true })
    | .pending =>
      let answeredQueue :=
        { queue with
          prompts := queue.prompts.update id fun prompt ↦
            { prompt with
              state := .answered, answerVerdict := some verdict, answerScope := some scope }
          pendingByKey := queue.pendingByKey.remove prompt.key }
      (answeredQueue.leaveToken prompt.key verdict scope insertNow,
        .ok { id, key := prompt.key, verdict, scope, duplicate := false })

/-! ### The allow tokens -/

/-- Every allow token of the first queue is one of the second. -/
def TokensLe (after before : PromptQueue) : Prop :=
  ∀ key inserted, after.onceAllows.get key = some inserted →
    before.onceAllows.get key = some inserted

theorem TokensLe.refl (queue : PromptQueue) : TokensLe queue queue := fun _ _ hget ↦ hget

theorem TokensLe.trans {first second third : PromptQueue} (hfirst : TokensLe first second)
    (hsecond : TokensLe second third) : TokensLe first third :=
  fun key inserted hget ↦ hsecond key inserted (hfirst key inserted hget)

theorem tokensLe_expire (queue : PromptQueue) (now : Instant) :
    TokensLe (queue.expire now) queue := by
  intro key inserted hget
  simp only [expire, FiniteMap.get_retain, Option.filter_eq_some_iff] at hget
  exact hget.1

@[simp] theorem ttl_expire (queue : PromptQueue) (now : Instant) :
    (queue.expire now).ttl = queue.ttl := rfl

@[simp] theorem ttl_enqueue (queue : PromptQueue) (expireNow createNow : Instant)
    (key : PromptKey) : (queue.enqueue expireNow createNow key).1.ttl = queue.ttl := by
  unfold enqueue
  dsimp only
  split
  · rfl
  · split_ifs <;> rfl

@[simp] theorem ttl_answer (queue : PromptQueue) (expireNow insertNow : Instant) (id : UInt64)
    (verdict : Verdict) (scope : RuleScope) :
    (queue.answer expireNow insertNow id verdict scope).1.ttl = queue.ttl := by
  unfold answer leaveToken
  dsimp only
  split
  · rfl
  · split
    · rfl
    · rfl
    · split <;> rfl

theorem tokensLe_consumeOnceDeny (queue : PromptQueue) (now : Instant) (key : PromptKey) :
    TokensLe (queue.consumeOnceDeny now key).1 queue :=
  tokensLe_expire queue now

theorem tokensLe_listPending (queue : PromptQueue) (now : Instant) :
    TokensLe (queue.listPending now).1 queue :=
  tokensLe_expire queue now

theorem tokensLe_enqueue (queue : PromptQueue) (expireNow createNow : Instant) (key : PromptKey) :
    TokensLe (queue.enqueue expireNow createNow key).1 queue := by
  unfold enqueue
  dsimp only
  split
  · exact tokensLe_expire queue expireNow
  · split_ifs
    · exact tokensLe_expire queue expireNow
    · exact tokensLe_expire queue expireNow

theorem tokensLe_takeOnceAllow (queue : PromptQueue) (expireNow checkNow : Instant)
    (key : PromptKey) : TokensLe (queue.takeOnceAllow expireNow checkNow key).1 queue := by
  intro other inserted hget
  simp only [takeOnceAllow, FiniteMap.get_remove] at hget
  split_ifs at hget
  exact tokensLe_expire queue expireNow other inserted hget

/-- After a take its key has no allow token. -/
theorem get_takeOnceAllow_self (queue : PromptQueue) (expireNow checkNow : Instant)
    (key : PromptKey) :
    (queue.takeOnceAllow expireNow checkNow key).1.onceAllows.get key = none :=
  FiniteMap.get_remove_self _ _

/-- A successful take found a token no older than the lifetime. Assumes: the take succeeded. -/
theorem held_of_takeOnceAllow {queue : PromptQueue} {expireNow checkNow : Instant}
    {key : PromptKey} (htake : (queue.takeOnceAllow expireNow checkNow key).2 = true) :
    ∃ inserted, queue.onceAllows.get key = some inserted ∧ checkNow ≤ inserted + queue.ttl := by
  simp only [takeOnceAllow, Option.any_eq_true, decide_eq_true_eq] at htake
  obtain ⟨inserted, hget, hfresh⟩ := htake
  exact ⟨inserted, tokensLe_expire queue expireNow key inserted hget, hfresh⟩

/-- A token held after an answer was held before it, or the answer granted it. -/
theorem held_answer {queue : PromptQueue} {expireNow insertNow : Instant} {id : UInt64}
    {verdict : Verdict} {scope : RuleScope} {key : PromptKey} {inserted : Instant}
    (hheld : (queue.answer expireNow insertNow id verdict scope).1.onceAllows.get key =
      some inserted) :
    (∃ answered, (queue.answer expireNow insertNow id verdict scope).2 = .ok answered ∧
        answered.grantsOnce = true ∧ answered.key = key ∧ inserted = insertNow) ∨
      queue.onceAllows.get key = some inserted := by
  have hexpire := tokensLe_expire queue expireNow key inserted
  unfold answer at hheld ⊢
  dsimp only at hheld ⊢
  split at hheld
  · exact .inr (hexpire hheld)
  · next prompt hprompt =>
    split at hheld
    · exact .inr (hexpire hheld)
    · exact .inr (hexpire hheld)
    · next hpending =>
      unfold leaveToken at hheld
      split at hheld
      · rw [FiniteMap.get_insert] at hheld
        split_ifs at hheld with hkey
        · exact .inl ⟨⟨id, prompt.key, .allow, .once, false⟩, rfl, rfl, hkey.symm,
            (Option.some.inj hheld).symm⟩
        · exact .inr (hexpire hheld)
      · exact .inr (hexpire hheld)
      · exact .inr (hexpire hheld)

/-- An answer that grants a token asked for allow once and is the first one to a prompt that was
pending under the token's key. Assumes: the answer succeeded and grants a token. -/
theorem asked_of_grantsOnce {queue : PromptQueue} {expireNow insertNow : Instant} {id : UInt64}
    {verdict : Verdict} {scope : RuleScope} {answered : Answered}
    (hanswer : (queue.answer expireNow insertNow id verdict scope).2 = .ok answered)
    (hgrants : answered.grantsOnce = true) :
    verdict = .allow ∧ scope = .once ∧ answered = ⟨id, answered.key, .allow, .once, false⟩ ∧
      ∃ prompt, (queue.expire expireNow).prompts.get id = some prompt ∧
        prompt.state = .pending ∧ prompt.key = answered.key := by
  unfold answer at hanswer
  dsimp only at hanswer
  split at hanswer
  · cases hanswer
  · next prompt hprompt =>
    split at hanswer
    · cases hanswer
    · obtain rfl := Except.ok.inj hanswer
      simp [Answered.grantsOnce] at hgrants
    · next hpending =>
      obtain rfl := Except.ok.inj hanswer
      simp only [Answered.grantsOnce, Bool.not_false, Bool.true_and, Bool.and_eq_true,
        decide_eq_true_eq] at hgrants
      obtain ⟨rfl, rfl⟩ := hgrants
      exact ⟨rfl, rfl, rfl, prompt, hprompt, hpending, rfl⟩

end PromptQueue

end InterFire
