import InterFire.PromptFrames
import InterFire.PromptRecords
import InterFire.RulesStore

/-!
# The requests about rules and prompts

`mutate`, `prompt_answer` and `persist_answered_rule` of `crates/interfire-daemon/src/ipc.rs`. A
rule request changes the rule set under the rules lock and saves it before it releases the lock. An
answer first records its verdict under the prompts lock; a first answer that is to last then takes
the rules lock, inserts a rule, and saves the set when its scope is permanent. `RulesChange` is what
the three paths do under the rules lock. `prompt_list` sends the pending prompts.

`RulesChange.apply_cases` is what an accepted change can do, `changeRules_of_refuses`,
`changeRules_of_unsaved` and `changeRules_of_saved` are the cases of that section, and
`promptAnswer_cases` those of an answer.
-/

set_option autoImplicit false
set_option relaxedAutoImplicit false

namespace InterFire

/-- The rules and the prompts behind their locks, and the directory of the rules document. -/
structure PolicyStore where
  rules : Mutex RuleSet
  prompts : Mutex PromptQueue
  directory : RulesDirectory

/-- What a request meets: whether its peer may mutate, the two readings of the clock that an answer
makes, and how the file system treats the save. -/
structure PolicyInputs where
  peerMayMutate : Bool
  expireNow : Instant
  insertNow : Instant
  save : SaveOutcome
  deriving DecidableEq, Repr

/-! ### Rules from requests -/

/-- A rule for the outbound TCP connections of an executable to a port. -/
def Rule.forPort (id : UInt64) (executable : String) (port : UInt16) (verdict : Verdict)
    (scope : Scope) : Rule :=
  { id, executable, protocol := some .tcp, direction := some .outbound, address := none,
    hostname := none, port := some port, verdict, scope }

/-- The verdict that an answer names. -/
def answerVerdict : String → Option Verdict
  | "allow" => some .allow
  | "deny" => some .deny
  | _ => none

/-- The scope that an answer names. -/
def answerScope : String → Option RuleScope
  | "once" => some .once
  | "session" => some .session
  | "permanent" => some .permanent
  | _ => none

/-- The verdict that a new rule names. -/
def ruleVerdict : String → Option Verdict
  | "allow" => some .allow
  | "deny" => some .deny
  | "prompt" => some .prompt
  | _ => none

def RuleScope.toScope : RuleScope → Scope
  | .once => .once
  | .session => .session
  | .permanent => .permanent

/-- One more than the greatest id, as far as the numbers go. -/
def RuleSet.nextId (set : RuleSet) : UInt64 :=
  saturatingAdd ((set.rules.map Rule.id).max?.getD 0) 1

/-- The rule of an answered prompt. It holds for every address. -/
def RuleSet.answeredRule (set : RuleSet) (answered : Answered) : Rule :=
  Rule.forPort set.nextId answered.key.executable answered.key.port answered.verdict
    answered.scope.toScope

/-- What is done under the rules lock: one of the two rule requests, or the rule of an answered
prompt. -/
inductive RulesChange
  | delete (id : UInt64)
  | add (id : UInt64) (executable verdict : String) (port : UInt16)
  | answer (answered : Answered)
  deriving DecidableEq, Repr

/-- The changed set and whether it is saved, or the code of the refusal. -/
def RulesChange.apply (rules : RuleSet) : RulesChange → Except String (RuleSet × Bool)
  | .delete id =>
    match rules.remove id with
    | (kept, true) => .ok (kept, true)
    | (_, false) => .error "rule_not_found"
  | .add id executable verdict port =>
    match ruleVerdict verdict with
    | none => .error "invalid_verdict"
    | some verdict =>
      match rules.insert (Rule.forPort id executable port verdict .permanent) with
      | .ok rules => .ok (rules, true)
      | .error _ => .error "invalid_rule"
  | .answer answered =>
    match rules.insert (rules.answeredRule answered) with
    | .ok rules => .ok (rules, answered.scope = .permanent)
    | .error _ => .error "invalid_rule"

namespace RulesChange

/-- The rule that a change adds. -/
def addition (rules : RuleSet) : RulesChange → Option Rule
  | .delete _ => none
  | .add id executable verdict port =>
    (ruleVerdict verdict).map fun verdict ↦ Rule.forPort id executable port verdict .permanent
  | .answer answered => some (rules.answeredRule answered)

/-- The change is to be saved. -/
def isSaved : RulesChange → Bool
  | .delete _ => true
  | .add _ _ _ _ => true
  | .answer answered => answered.scope = .permanent

/-- An accepted change removes the rules with an id or inserts its rule. Assumes: it is accepted. -/
theorem apply_cases {rules after : RuleSet} {change : RulesChange} {saved : Bool}
    (happly : change.apply rules = .ok (after, saved)) :
    saved = change.isSaved ∧
      ((∃ id, change = .delete id ∧ rules.remove id = (after, true)) ∨
        ∃ rule, change.addition rules = some rule ∧ rules.insert rule = .ok after) := by
  cases change with
  | delete id =>
    simp only [apply] at happly
    split at happly
    · next kept hremove =>
      obtain ⟨rfl, rfl⟩ := Prod.mk.inj (Except.ok.inj happly)
      exact ⟨rfl, .inl ⟨id, rfl, hremove⟩⟩
    · cases happly
  | add id executable verdict port =>
    simp only [apply] at happly
    split at happly
    · cases happly
    · next named hverdict =>
      split at happly
      · next inserted hinsert =>
        obtain ⟨rfl, rfl⟩ := Prod.mk.inj (Except.ok.inj happly)
        exact ⟨rfl, .inr ⟨_, by rw [addition, hverdict]; rfl, hinsert⟩⟩
      · cases happly
  | answer answered =>
    simp only [apply] at happly
    split at happly
    · next inserted hinsert =>
      obtain ⟨rfl, rfl⟩ := Prod.mk.inj (Except.ok.inj happly)
      exact ⟨rfl, .inr ⟨_, rfl, hinsert⟩⟩
    · cases happly

/-- An accepted change keeps the set valid. Assumes: it was valid, and the change is accepted. -/
theorem valid_apply {rules after : RuleSet} {change : RulesChange} {saved : Bool}
    (hvalid : rules.Valid) (happly : change.apply rules = .ok (after, saved)) : after.Valid := by
  rcases (apply_cases happly).2 with ⟨id, _, hremove⟩ | ⟨rule, _, hinsert⟩
  · have hkept := RuleSet.valid_remove hvalid id
    rwa [hremove] at hkept
  · exact RuleSet.valid_insert hvalid hinsert

end RulesChange

namespace PolicyStore

/-! ### Handlers -/

/-- Change the rules under their lock: memory first, then the document. -/
def changeRules (toml : Toml) (outcome : SaveOutcome) (change : RulesChange) (store : PolicyStore) :
    PolicyStore × Except String Unit :=
  match store.rules.lock with
  | none => (store, .error "lock_poisoned")
  | some rules =>
    match change.apply rules with
    | .error code => (store, .error code)
    | .ok (rules, false) => ({ store with rules := store.rules.store rules }, .ok ())
    | .ok (rules, true) =>
      let (directory, result) := RulesStore.save toml outcome rules store.directory
      ({ store with rules := store.rules.store rules, directory },
        result.mapError fun _ ↦ "persistence_failed")

/-- The response to a result. -/
def respond (result : Except String Unit) : Response :=
  match result with
  | .ok () => .pong
  | .error code => .error code

/-- The handler of the two rule requests. -/
def mutate (toml : Toml) (inputs : PolicyInputs) (change : RulesChange) (store : PolicyStore) :
    PolicyStore × Response :=
  if !inputs.peerMayMutate then (store, .error "unauthorized")
  else
    let (store, result) := store.changeRules toml inputs.save change
    (store, respond result)

def persistAnsweredRule (toml : Toml) (outcome : SaveOutcome) (answered : Answered)
    (store : PolicyStore) : PolicyStore × Except String Unit :=
  store.changeRules toml outcome (.answer answered)

/-- The handler of the prompt list. -/
def promptList (store : PolicyStore) (expireNow now : Instant) : PolicyStore × Response :=
  match store.prompts.lock with
  | none => (store, .error "lock_poisoned")
  | some prompts =>
    let (prompts, pending) := prompts.listPending expireNow
    ({ store with prompts := store.prompts.store prompts }, .prompts (encodePrompts now pending))

/-- The handler of an answer. -/
def promptAnswer (toml : Toml) (inputs : PolicyInputs) (id : UInt64) (verdict scope : String)
    (store : PolicyStore) : PolicyStore × Response :=
  if !inputs.peerMayMutate then (store, .error "unauthorized")
  else
    match answerVerdict verdict with
    | none => (store, .error "invalid_verdict")
    | some verdict =>
      match answerScope scope with
      | none => (store, .error "invalid_scope")
      | some scope =>
        match store.prompts.lock with
        | none => (store, .error "lock_poisoned")
        | some prompts =>
          let (prompts, result) :=
            prompts.answer inputs.expireNow inputs.insertNow id verdict scope
          let store := { store with prompts := store.prompts.store prompts }
          match result with
          | .error .notFound => (store, .error "prompt_not_found")
          | .error .expired => (store, .error "prompt_expired")
          | .ok answered =>
            if !answered.duplicate && answered.scope ≠ .once then
              let (store, result) := store.persistAnsweredRule toml inputs.save answered
              (store, respond result)
            else (store, .pong)

end PolicyStore

/-- A request that changes rules. -/
inductive PolicyRequest
  | ruleAdd (id : UInt64) (executable verdict : String) (port : UInt16)
  | ruleDelete (id : UInt64)
  | promptAnswer (id : UInt64) (verdict scope : String)
  deriving DecidableEq, Repr

/-- The inputs of an authorised request at an instant, with a save that ends in some way. -/
def PolicyInputs.at (now : Instant) (save : SaveOutcome) : PolicyInputs := ⟨true, now, now, save⟩

/-- A daemon without rules, prompts or document. -/
def PolicyStore.fresh : PolicyStore :=
  { rules := Mutex.new RuleSet.default
    prompts := Mutex.new PromptQueue.withDefaults
    directory := ⟨none, none⟩ }

/-- Load the rules and start with an empty queue. A daemon that cannot load them does not start. -/
def PolicyStore.start (toml : Toml) (directory : RulesDirectory) : Option PolicyStore :=
  match RulesStore.loadable toml directory with
  | .ok rules =>
    some { rules := Mutex.new rules, prompts := Mutex.new PromptQueue.withDefaults, directory }
  | .error _ => none

/-- Handle a request. -/
def PolicyStore.handle (toml : Toml) (inputs : PolicyInputs) (store : PolicyStore) :
    PolicyRequest → PolicyStore × Response
  | .ruleAdd id executable verdict port =>
    store.mutate toml inputs (.add id executable verdict port)
  | .ruleDelete id => store.mutate toml inputs (.delete id)
  | .promptAnswer id verdict scope => store.promptAnswer toml inputs id verdict scope

/-- A step of a daemon that handles one request after another: a connection is asked about, or a
request is handled. -/
inductive PolicyStep
  | enqueue (expireNow createNow : Instant) (key : PromptKey)
  | request (inputs : PolicyInputs) (request : PolicyRequest)
  deriving DecidableEq, Repr

/-- One step. -/
def PolicyStore.step (toml : Toml) (store : PolicyStore) : PolicyStep → PolicyStore
  | .enqueue expireNow createNow key =>
    match store.prompts.lock with
    | some prompts =>
      { store with prompts := store.prompts.store (prompts.enqueue expireNow createNow key).1 }
    | none => store
  | .request inputs request => (store.handle toml inputs request).1

/-! ### The section under the rules lock -/

namespace PolicyStore

section Changes

variable {toml : Toml} {outcome : SaveOutcome} {change : RulesChange} {store : PolicyStore}

/-- The change is refused: the lock is poisoned, or the rules do not admit it. -/
def Refuses (store : PolicyStore) (change : RulesChange) : Prop :=
  store.rules.poisoned = true ∨ ∃ code, change.apply store.rules.value = .error code

/-- The change is accepted: the set it leaves, and whether it is to be saved. -/
def Accepts (store : PolicyStore) (change : RulesChange) (rules : RuleSet) (saved : Bool) : Prop :=
  store.rules.poisoned = false ∧ change.apply store.rules.value = .ok (rules, saved)

/-- An accepted answer adds its rule, and is saved when its scope is permanent. Assumes: it is
accepted. -/
theorem of_accepts_answer {answered : Answered} {rules : RuleSet} {saved : Bool}
    (haccepts : store.Accepts (.answer answered) rules saved) :
    saved = decide (answered.scope = .permanent) ∧
      rules = ⟨store.rules.value.rules ++ [store.rules.value.answeredRule answered]⟩ ∧
      ∀ existing ∈ store.rules.value.rules, existing.id ≠ store.rules.value.nextId := by
  obtain ⟨hsaved, ⟨id, hdelete, _⟩ | ⟨rule, hrule, hinsert⟩⟩ := RulesChange.apply_cases haccepts.2
  · cases hdelete
  · obtain rfl := Option.some.inj hrule
    obtain ⟨hrules, _, hunused⟩ := RuleSet.of_insert_ok hinsert
    exact ⟨hsaved, hrules, hunused⟩

/-- A change is refused or accepted. -/
theorem refuses_or_accepts (store : PolicyStore) (change : RulesChange) :
    store.Refuses change ∨ ∃ rules saved, store.Accepts change rules saved := by
  cases hpoisoned : store.rules.poisoned with
  | true => exact .inl (.inl hpoisoned)
  | false =>
    cases happly : change.apply store.rules.value with
    | error code => exact .inl (.inr ⟨code, happly⟩)
    | ok changed => exact .inr ⟨changed.1, changed.2, hpoisoned, happly⟩

/-- A refused change changes nothing. Assumes: it is refused. -/
theorem changeRules_of_refuses (hrefuses : store.Refuses change) :
    ∃ code, store.changeRules toml outcome change = (store, .error code) := by
  rcases hrefuses with hpoisoned | ⟨code, happly⟩
  · exact ⟨"lock_poisoned", by simp [changeRules, Mutex.lock, hpoisoned]⟩
  · cases hpoisoned : store.rules.poisoned with
    | true => exact ⟨"lock_poisoned", by simp [changeRules, Mutex.lock, hpoisoned]⟩
    | false => exact ⟨code, by simp [changeRules, Mutex.lock_eq hpoisoned, happly]⟩

/-- A change that is not to be saved stays in memory. Assumes: it is accepted. -/
theorem changeRules_of_unsaved {rules : RuleSet} (haccepts : store.Accepts change rules false) :
    store.changeRules toml outcome change =
      ({ store with rules := store.rules.store rules }, .ok ()) := by
  simp [changeRules, Mutex.lock_eq haccepts.1, haccepts.2]

/-- A change that is to be saved is in memory whatever comes of the save. Assumes: it is accepted.
-/
theorem changeRules_of_saved {rules : RuleSet} (haccepts : store.Accepts change rules true) :
    store.changeRules toml outcome change =
      ({ store with
          rules := store.rules.store rules
          directory := (RulesStore.save toml outcome rules store.directory).1 },
        (RulesStore.save toml outcome rules store.directory).2.mapError
          fun _ ↦ "persistence_failed") := by
  simp [changeRules, Mutex.lock_eq haccepts.1, haccepts.2]

/-- The section changes nothing, or it leaves the accepted set in memory and saves it if it is to be
saved. -/
theorem changeRules_cases (toml : Toml) (outcome : SaveOutcome) (change : RulesChange)
    (store : PolicyStore) :
    (store.changeRules toml outcome change).1 = store ∨
      ∃ rules saved, store.Accepts change rules saved ∧
        (store.changeRules toml outcome change).1 =
          { store with
            rules := store.rules.store rules
            directory :=
              if saved then (RulesStore.save toml outcome rules store.directory).1
              else store.directory } := by
  rcases store.refuses_or_accepts change with hrefuses | ⟨rules, saved, haccepts⟩
  · obtain ⟨code, hchange⟩ := changeRules_of_refuses hrefuses
    exact .inl (by rw [hchange])
  · refine .inr ⟨rules, saved, haccepts, ?_⟩
    cases saved with
    | false =>
      rw [changeRules_of_unsaved haccepts]
      rfl
    | true =>
      rw [changeRules_of_saved haccepts]
      rfl

/-- The section leaves the prompts alone. -/
theorem prompts_changeRules (toml : Toml) (outcome : SaveOutcome) (change : RulesChange)
    (store : PolicyStore) :
    (store.changeRules toml outcome change).1.prompts = store.prompts := by
  rcases changeRules_cases toml outcome change store with hsame | ⟨rules, saved, _, hchange⟩
  · rw [hsame]
  · rw [hchange]

end Changes

/-! ### Answers -/

section Answers

variable {toml : Toml} {inputs : PolicyInputs} {store : PolicyStore} {id : UInt64}
  {verdict scope : String}

/-- The answer gets as far as the queue: the peer may mutate, the words are a verdict and a scope,
and the prompts can be locked. -/
structure Reaches (inputs : PolicyInputs) (store : PolicyStore) (verdict scope : String)
    (answer : Verdict) (lifetime : RuleScope) : Prop where
  peer : inputs.peerMayMutate = true
  verdict : answerVerdict verdict = some answer
  scope : answerScope scope = some lifetime
  clean : store.prompts.poisoned = false

/-- The store after the housekeeping of an answer. -/
def aged (store : PolicyStore) (now : Instant) : PolicyStore :=
  { store with prompts := store.prompts.store (store.prompts.value.expire now) }

/-- The store after the first answer to a prompt. -/
def recorded (store : PolicyStore) (inputs : PolicyInputs) (answered : Answered) : PolicyStore :=
  { store with
    prompts := store.prompts.store ((store.prompts.value.expire inputs.expireNow).record
      inputs.insertNow answered.id answered.key answered.verdict answered.scope) }

/-- The prompt of an id after the housekeeping of an answer. -/
def promptAt (store : PolicyStore) (now : Instant) (id : UInt64) : Option Prompt :=
  (store.prompts.value.expire now).prompts.get id

/-- An answer is refused before it reaches the queue or it reaches it. -/
theorem promptAnswer_refused_or_reaches (toml : Toml) (inputs : PolicyInputs) (id : UInt64)
    (verdict scope : String) (store : PolicyStore) :
    (∃ code, store.promptAnswer toml inputs id verdict scope = (store, .error code)) ∨
      ∃ answer lifetime, Reaches inputs store verdict scope answer lifetime := by
  cases hpeer : inputs.peerMayMutate with
  | false => exact .inl ⟨"unauthorized", by simp [promptAnswer, hpeer]⟩
  | true =>
    cases hverdict : answerVerdict verdict with
    | none => exact .inl ⟨"invalid_verdict", by simp [promptAnswer, hpeer, hverdict]⟩
    | some answer =>
      cases hscope : answerScope scope with
      | none => exact .inl ⟨"invalid_scope", by simp [promptAnswer, hpeer, hverdict, hscope]⟩
      | some lifetime =>
        cases hclean : store.prompts.poisoned with
        | true =>
          exact .inl ⟨"lock_poisoned",
            by simp [promptAnswer, hpeer, hverdict, hscope, Mutex.lock, hclean]⟩
        | false => exact .inr ⟨answer, lifetime, hpeer, hverdict, hscope, hclean⟩

/-- An answer to no prompt, or to an expired one. Assumes: it reaches the queue and finds none that
it could answer. -/
theorem promptAnswer_of_unanswerable {answer : Verdict} {lifetime : RuleScope}
    (hreaches : Reaches inputs store verdict scope answer lifetime)
    (hnone : ∀ prompt, store.promptAt inputs.expireNow id = some prompt → prompt.state = .expired) :
    ∃ code, store.promptAnswer toml inputs id verdict scope =
      (store.aged inputs.expireNow, .error code) := by
  cases hget : store.promptAt inputs.expireNow id with
  | none =>
    refine ⟨"prompt_not_found", ?_⟩
    simp only [promptAnswer, hreaches.peer, hreaches.verdict, hreaches.scope,
      Mutex.lock_eq hreaches.clean, PromptQueue.answer_of_missing hget]
    rfl
  | some prompt =>
    refine ⟨"prompt_expired", ?_⟩
    simp only [promptAnswer, hreaches.peer, hreaches.verdict, hreaches.scope,
      Mutex.lock_eq hreaches.clean, PromptQueue.answer_of_expired hget (hnone prompt hget)]
    rfl

/-- A repeated answer. Assumes: it reaches the queue and the prompt is answered. -/
theorem promptAnswer_of_answered {answer : Verdict} {lifetime : RuleScope} {prompt : Prompt}
    (hreaches : Reaches inputs store verdict scope answer lifetime)
    (hget : store.promptAt inputs.expireNow id = some prompt)
    (hanswered : prompt.state = .answered) :
    store.promptAnswer toml inputs id verdict scope = (store.aged inputs.expireNow, .pong) := by
  simp only [promptAnswer, hreaches.peer, hreaches.verdict, hreaches.scope,
    Mutex.lock_eq hreaches.clean, PromptQueue.answer_of_answered hget hanswered]
  rfl

/-- A first answer with scope once. Assumes: it reaches the queue and the prompt is pending. -/
theorem promptAnswer_of_once {answer : Verdict} {prompt : Prompt}
    (hreaches : Reaches inputs store verdict scope answer .once)
    (hget : store.promptAt inputs.expireNow id = some prompt)
    (hpending : prompt.state = .pending) :
    store.promptAnswer toml inputs id verdict scope =
      (store.recorded inputs ⟨id, prompt.key, answer, .once, false⟩, .pong) := by
  simp only [promptAnswer, hreaches.peer, hreaches.verdict, hreaches.scope,
    Mutex.lock_eq hreaches.clean, PromptQueue.answer_of_pending hget hpending]
  rfl

/-- A first answer that is to last. Assumes: it reaches the queue, its scope is not once, and the
prompt is pending. -/
theorem promptAnswer_of_lasting {answer : Verdict} {lifetime : RuleScope} {prompt : Prompt}
    (hreaches : Reaches inputs store verdict scope answer lifetime) (hlasting : lifetime ≠ .once)
    (hget : store.promptAt inputs.expireNow id = some prompt)
    (hpending : prompt.state = .pending) :
    store.promptAnswer toml inputs id verdict scope =
      (((store.recorded inputs ⟨id, prompt.key, answer, lifetime, false⟩).changeRules toml
          inputs.save (.answer ⟨id, prompt.key, answer, lifetime, false⟩)).1,
        respond ((store.recorded inputs ⟨id, prompt.key, answer, lifetime, false⟩).changeRules toml
          inputs.save (.answer ⟨id, prompt.key, answer, lifetime, false⟩)).2) := by
  simp only [promptAnswer, hreaches.peer, hreaches.verdict, hreaches.scope,
    Mutex.lock_eq hreaches.clean, PromptQueue.answer_of_pending hget hpending]
  simp only [Bool.not_true, Bool.false_eq_true, if_false, Bool.not_false, Bool.true_and, ne_eq,
    hlasting, not_false_eq_true, decide_true, if_true]
  rfl

/-- The cases of an answer: it is refused before the queue, the queue has no prompt for it, it is
repeated, it is a first one with scope once, or it is a first one that is to last. -/
theorem promptAnswer_cases (toml : Toml) (inputs : PolicyInputs) (id : UInt64)
    (verdict scope : String) (store : PolicyStore) :
    (∃ code, store.promptAnswer toml inputs id verdict scope = (store, .error code)) ∨
    (∃ code, store.promptAnswer toml inputs id verdict scope =
      (store.aged inputs.expireNow, .error code)) ∨
    ∃ answer lifetime prompt, Reaches inputs store verdict scope answer lifetime ∧
      store.promptAt inputs.expireNow id = some prompt ∧
      ((prompt.state = .answered ∧ store.promptAnswer toml inputs id verdict scope =
          (store.aged inputs.expireNow, .pong)) ∨
        (prompt.state = .pending ∧ lifetime = .once ∧
          store.promptAnswer toml inputs id verdict scope =
            (store.recorded inputs ⟨id, prompt.key, answer, .once, false⟩, .pong)) ∨
        (prompt.state = .pending ∧ lifetime ≠ .once)) := by
  rcases promptAnswer_refused_or_reaches toml inputs id verdict scope store with
    hrefused | ⟨answer, lifetime, hreaches⟩
  · exact .inl hrefused
  · by_cases hnone : ∀ prompt, store.promptAt inputs.expireNow id = some prompt →
        prompt.state = .expired
    · exact .inr (.inl (promptAnswer_of_unanswerable hreaches hnone))
    · push Not at hnone
      obtain ⟨prompt, hget, hstate⟩ := hnone
      refine .inr (.inr ⟨answer, lifetime, prompt, hreaches, hget, ?_⟩)
      cases hprompt : prompt.state with
      | expired => exact absurd hprompt hstate
      | answered => exact .inl ⟨rfl, promptAnswer_of_answered hreaches hget hprompt⟩
      | pending =>
        by_cases honce : lifetime = .once
        · subst honce
          exact .inr (.inl ⟨rfl, rfl, promptAnswer_of_once hreaches hget hprompt⟩)
        · exact .inr (.inr ⟨rfl, honce⟩)

end Answers

/-! ### Requests -/

/-- The request comes to make the change. -/
def Makes (inputs : PolicyInputs) (store : PolicyStore) (change : RulesChange) :
    PolicyRequest → Prop
  | .ruleAdd id executable verdict port =>
    inputs.peerMayMutate = true ∧ change = .add id executable verdict port
  | .ruleDelete id => inputs.peerMayMutate = true ∧ change = .delete id
  | .promptAnswer id verdict scope =>
    ∃ answer lifetime prompt, Reaches inputs store verdict scope answer lifetime ∧
      lifetime ≠ .once ∧ store.promptAt inputs.expireNow id = some prompt ∧
      prompt.state = .pending ∧ change = .answer ⟨id, prompt.key, answer, lifetime, false⟩

/-- A rule request leaves rules and directory alone, or its change is accepted. -/
theorem mutate_cases (toml : Toml) (inputs : PolicyInputs) (store : PolicyStore)
    (change : RulesChange) :
    ((store.mutate toml inputs change).1.rules = store.rules ∧
      (store.mutate toml inputs change).1.directory = store.directory) ∨
    ∃ rules saved, inputs.peerMayMutate = true ∧ store.Accepts change rules saved ∧
      (store.mutate toml inputs change).1.rules = store.rules.store rules ∧
      (store.mutate toml inputs change).1.directory =
        if saved then (RulesStore.save toml inputs.save rules store.directory).1
        else store.directory := by
  unfold mutate
  cases hpeer : inputs.peerMayMutate with
  | false => exact .inl ⟨rfl, rfl⟩
  | true =>
    rcases changeRules_cases toml inputs.save change store with
      hsame | ⟨rules, saved, haccepts, hchange⟩
    · exact .inl ⟨congrArg PolicyStore.rules hsame, congrArg PolicyStore.directory hsame⟩
    · exact .inr ⟨rules, saved, rfl, haccepts, congrArg PolicyStore.rules hchange,
        congrArg PolicyStore.directory hchange⟩

/-- A request leaves rules and directory alone, or it makes a change that is accepted. -/
theorem handle_cases (toml : Toml) (inputs : PolicyInputs) (store : PolicyStore)
    (request : PolicyRequest) :
    ((store.handle toml inputs request).1.rules = store.rules ∧
      (store.handle toml inputs request).1.directory = store.directory) ∨
    ∃ change rules saved, store.Makes inputs change request ∧ store.Accepts change rules saved ∧
      (store.handle toml inputs request).1.rules = store.rules.store rules ∧
      (store.handle toml inputs request).1.directory =
        if saved then (RulesStore.save toml inputs.save rules store.directory).1
        else store.directory := by
  cases request with
  | ruleAdd id executable verdict port =>
    rcases mutate_cases toml inputs store (.add id executable verdict port) with
      hsame | ⟨rules, saved, hpeer, hchange⟩
    · exact .inl hsame
    · exact .inr ⟨_, rules, saved, ⟨hpeer, rfl⟩, hchange⟩
  | ruleDelete id =>
    rcases mutate_cases toml inputs store (.delete id) with
      hsame | ⟨rules, saved, hpeer, hchange⟩
    · exact .inl hsame
    · exact .inr ⟨_, rules, saved, ⟨hpeer, rfl⟩, hchange⟩
  | promptAnswer id verdict scope =>
    simp only [handle]
    rcases promptAnswer_cases toml inputs id verdict scope store with
      ⟨_, hrefused⟩ | ⟨_, hrefused⟩ | ⟨answer, lifetime, prompt, hreaches, hget,
        ⟨_, hrepeated⟩ | ⟨_, _, honce⟩ | ⟨hpending, hlasting⟩⟩
    · exact .inl (by rw [hrefused]; exact ⟨rfl, rfl⟩)
    · exact .inl (by rw [hrefused]; exact ⟨rfl, rfl⟩)
    · exact .inl (by rw [hrepeated]; exact ⟨rfl, rfl⟩)
    · exact .inl (by rw [honce]; exact ⟨rfl, rfl⟩)
    · rw [promptAnswer_of_lasting hreaches hlasting hget hpending]
      rcases changeRules_cases toml inputs.save
        (.answer ⟨id, prompt.key, answer, lifetime, false⟩)
        (store.recorded inputs ⟨id, prompt.key, answer, lifetime, false⟩) with
        hsame | ⟨rules, saved, haccepts, hchange⟩
      · rw [hsame]
        exact .inl ⟨rfl, rfl⟩
      · rw [hchange]
        exact .inr ⟨_, rules, saved, ⟨answer, lifetime, prompt, hreaches, hlasting, hget, hpending,
          rfl⟩, haccepts, rfl, rfl⟩

end PolicyStore

end InterFire
