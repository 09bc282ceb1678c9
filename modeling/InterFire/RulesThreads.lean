import InterFire.Library.Run
import InterFire.PolicyRequests

/-!
# Memory and disk under the rules lock

Request threads that change rules, interleaved step by step: a thread waits for the rules lock,
takes it, changes the set in memory, saves it if the change is to be saved, and releases the lock.
An answer records its verdict under the prompts lock first and waits for the rules lock afterwards.
`changeRules_alone` says that the steps of one thread on its own are the section that
`PolicyStore.changeRules` runs.

`permanent_rules_agree` is the agreement of memory and disk: along every interleaving in which every
save goes through, whenever nobody holds the rules lock the permanent rules in memory are those that
the next start would load, in the same order.
-/

set_option autoImplicit false
set_option relaxedAutoImplicit false

namespace InterFire

/-- The rules of a set that are to last. -/
def RuleSet.permanentRules (set : RuleSet) : List Rule :=
  set.rules.filter fun rule ↦ decide (rule.scope = .permanent)

/-- Where a request thread is. -/
inductive RulesPosition
  | idle
  | waiting (change : RulesChange)
  | holding (change : RulesChange)
  | saving
  | releasing
  deriving DecidableEq, Repr

/-- A thread at the position holds the rules lock. -/
def RulesPosition.holds : RulesPosition → Bool
  | .idle => false
  | .waiting _ => false
  | .holding _ => true
  | .saving => true
  | .releasing => true

/-- The store, the thread that holds the rules lock, and where each thread is. -/
structure RulesSystem where
  store : PolicyStore
  holder : Option ℕ
  position : ℕ → RulesPosition

/-- A step of a thread. The first one asks about a connection. The next three begin a request whose
peer may make it: a rule request is read, or an answer is and goes through the queue. -/
inductive RulesStep
  | enqueue (expireNow createNow : Instant) (key : PromptKey)
  | ruleDelete (thread : ℕ) (id : UInt64)
  | ruleAdd (thread : ℕ) (id : UInt64) (executable verdict : String) (port : UInt16)
  | answer (thread : ℕ) (expireNow insertNow : Instant) (id : UInt64) (verdict : Verdict)
    (scope : RuleScope)
  | acquire (thread : ℕ)
  | change (thread : ℕ)
  | save (thread : ℕ) (outcome : SaveOutcome)
  | release (thread : ℕ)
  deriving DecidableEq, Repr

namespace RulesSystem

/-- Move a thread. -/
def move (system : RulesSystem) (thread : ℕ) (position : RulesPosition) : RulesSystem :=
  { system with position := Function.update system.position thread position }

@[simp] theorem position_move_self (system : RulesSystem) (thread : ℕ) (position : RulesPosition) :
    (system.move thread position).position thread = position :=
  Function.update_self ..

@[simp] theorem store_move (system : RulesSystem) (thread : ℕ) (position : RulesPosition) :
    (system.move thread position).store = system.store := rfl

theorem position_move_of_ne (system : RulesSystem) {thread other : ℕ} (hne : other ≠ thread)
    (position : RulesPosition) :
    (system.move thread position).position other = system.position other :=
  Function.update_of_ne hne ..

/-- Replace the rules in memory. -/
def remember (system : RulesSystem) (rules : RuleSet) : RulesSystem :=
  { system with store := { system.store with rules := system.store.rules.store rules } }

/-- Replace the prompts. -/
def setPrompts (system : RulesSystem) (prompts : PromptQueue) : RulesSystem :=
  { system with store := { system.store with prompts := system.store.prompts.store prompts } }

/-- Begin to wait for the rules lock. -/
def wait (system : RulesSystem) (thread : ℕ) (change : RulesChange) : RulesSystem :=
  match system.position thread with
  | .idle => system.move thread (.waiting change)
  | _ => system

/-- Where an answer goes on from the prompts lock. -/
def afterAnswer (result : Except AnswerError Answered) : RulesPosition :=
  match result with
  | .ok answered =>
    if !answered.duplicate && answered.scope ≠ .once then .waiting (.answer answered) else .idle
  | .error _ => .idle

/-- One step. A step that its thread cannot take changes nothing. -/
def step (toml : Toml) (system : RulesSystem) : RulesStep → RulesSystem
  | .enqueue expireNow createNow key =>
    match system.store.prompts.lock with
    | some prompts => system.setPrompts (prompts.enqueue expireNow createNow key).1
    | none => system
  | .ruleDelete thread id => system.wait thread (.delete id)
  | .ruleAdd thread id executable verdict port =>
    system.wait thread (.add id executable verdict port)
  | .answer thread expireNow insertNow id verdict scope =>
    match system.position thread, system.store.prompts.lock with
    | .idle, some prompts =>
      let (prompts, result) := prompts.answer expireNow insertNow id verdict scope
      (system.setPrompts prompts).move thread (afterAnswer result)
    | _, _ => system
  | .acquire thread =>
    match system.position thread, system.holder with
    | .waiting change, none =>
      if system.store.rules.poisoned then system.move thread .idle
      else { system with holder := some thread }.move thread (.holding change)
    | _, _ => system
  | .change thread =>
    match system.position thread with
    | .holding change =>
      match change.apply system.store.rules.value with
      | .error _ => system.move thread .releasing
      | .ok (rules, false) => (system.remember rules).move thread .releasing
      | .ok (rules, true) => (system.remember rules).move thread .saving
    | _ => system
  | .save thread outcome =>
    match system.position thread with
    | .saving =>
      let (directory, _) :=
        RulesStore.save toml outcome system.store.rules.value system.store.directory
      { system with store := { system.store with directory } }.move thread .releasing
    | _ => system
  | .release thread =>
    match system.position thread with
    | .releasing => { system with holder := none }.move thread .idle
    | _ => system

/-- A save that its thread can take goes through. -/
def SaveSucceeds (toml : Toml) (system : RulesSystem) : RulesStep → Prop
  | .save thread outcome =>
    system.position thread = .saving →
      (RulesStore.save toml outcome system.store.rules.value system.store.directory).2 = .ok ()
  | _ => True

/-- The permanent rules in memory are those that the next start would load. -/
def Agrees (toml : Toml) (store : PolicyStore) : Prop :=
  ∃ loaded, RulesStore.loadable toml store.directory = .ok loaded ∧
    store.rules.value.permanentRules = loaded.permanentRules

/-- What holds between the steps: the set in memory is valid, only the holder of the lock is past
it, and memory and disk agree unless a thread is about to save. -/
structure Invariant (toml : Toml) (system : RulesSystem) : Prop where
  valid : system.store.rules.value.Valid
  owner : ∀ thread, (system.position thread).holds = true → system.holder = some thread
  agrees : (∀ thread, system.position thread ≠ .saving) → Agrees toml system.store

/-! ### What a change keeps -/

/-- A change that is not to be saved keeps the permanent rules. Assumes: it is accepted. -/
theorem permanentRules_apply {rules after : RuleSet} {change : RulesChange}
    (happly : change.apply rules = .ok (after, false)) :
    after.permanentRules = rules.permanentRules := by
  obtain ⟨hsaved, hcases⟩ := RulesChange.apply_cases happly
  cases change with
  | delete id => cases hsaved
  | add id executable verdict port => cases hsaved
  | answer answered =>
    rcases hcases with ⟨id, hdelete, _⟩ | ⟨rule, hrule, hinsert⟩
    · cases hdelete
    · obtain rfl := Option.some.inj hrule
      obtain ⟨rfl, _, _⟩ := RuleSet.of_insert_ok hinsert
      have hscope : answered.scope ≠ .permanent := of_decide_eq_false hsaved.symm
      -- The rule of an answer has the scope of the answer, which is not permanent.
      have hnew : (rules.answeredRule answered).scope ≠ .permanent := by
        intro hpermanent
        apply hscope
        revert hpermanent
        simp only [RuleSet.answeredRule, Rule.forPort]
        cases answered.scope <;> simp [RuleScope.toScope]
      simp [RuleSet.permanentRules, List.filter_append, hnew]

/-! ### Steps -/

variable {toml : Toml} {system : RulesSystem}

/-- A thread past the lock is the only one. Assumes: the invariant, and another thread holds the
lock. -/
theorem Invariant.outside (hinvariant : Invariant toml system) {thread other : ℕ}
    (hholder : system.holder = some thread) (hne : other ≠ thread) :
    (system.position other).holds = false := by
  by_contra hholds
  have hother := hinvariant.owner other (by simpa using hholds)
  exact hne (Option.some.inj (hother.symm.trans hholder))

/-- Nobody is about to save while a thread holds the lock and is not. Assumes: the invariant, and
the holder is not about to save. -/
theorem Invariant.no_save (hinvariant : Invariant toml system) {thread : ℕ}
    (hholder : system.holder = some thread) (hposition : system.position thread ≠ .saving) :
    ∀ other, system.position other ≠ .saving := by
  intro other hsaving
  by_cases hsame : other = thread
  · exact hposition (hsame ▸ hsaving)
  · have houtside := hinvariant.outside hholder hsame
    rw [hsaving] at houtside
    cases houtside

/-- A thread outside the lock moves outside the lock. Assumes: the invariant, and neither position
holds the lock. -/
theorem Invariant.move_outside (hinvariant : Invariant toml system) {thread : ℕ}
    {position : RulesPosition} (hbefore : (system.position thread).holds = false)
    (hafter : position.holds = false) : Invariant toml (system.move thread position) := by
  refine ⟨hinvariant.valid, fun other hholds ↦ ?_,
    fun hquiet ↦ hinvariant.agrees fun other hsaving ↦ ?_⟩
  · by_cases hsame : other = thread
    · rw [hsame, position_move_self, hafter] at hholds
      cases hholds
    · rw [position_move_of_ne _ hsame] at hholds
      exact hinvariant.owner other hholds
  · by_cases hsame : other = thread
    · rw [hsame] at hsaving
      rw [hsaving] at hbefore
      cases hbefore
    · refine hquiet other ?_
      rw [position_move_of_ne _ hsame]
      exact hsaving

/-- The holder of the lock moves within it, with a new set or a new document. Assumes: the invariant
and the lock; the new set is valid, and it agrees with the document unless the thread is about to
save. -/
theorem Invariant.move_inside (hinvariant : Invariant toml system) {thread : ℕ}
    (hholder : system.holder = some thread) {store : PolicyStore} {position : RulesPosition}
    (hvalid : store.rules.value.Valid) (hagrees : position ≠ .saving → Agrees toml store) :
    Invariant toml ({ system with store }.move thread position) := by
  refine ⟨hvalid, fun other hholds ↦ ?_, fun hquiet ↦ hagrees ?_⟩
  · by_cases hsame : other = thread
    · rw [hsame]
      exact hholder
    · rw [position_move_of_ne _ hsame] at hholds
      exact hinvariant.owner other hholds
  · have hthread := hquiet thread
    rwa [position_move_self] at hthread

/-- Waiting for the lock keeps the invariant. Assumes: it holds. -/
theorem Invariant.wait (hinvariant : Invariant toml system) (thread : ℕ) (change : RulesChange) :
    Invariant toml (system.wait thread change) := by
  unfold RulesSystem.wait
  split
  · next hidle => exact hinvariant.move_outside (by rw [hidle]; rfl) rfl
  · exact hinvariant

/-- New prompts keep the invariant. Assumes: it holds. -/
theorem Invariant.setPrompts (hinvariant : Invariant toml system) (prompts : PromptQueue) :
    Invariant toml (system.setPrompts prompts) :=
  ⟨hinvariant.valid, hinvariant.owner, hinvariant.agrees⟩

theorem holds_afterAnswer (result : Except AnswerError Answered) :
    (afterAnswer result).holds = false := by
  unfold afterAnswer
  split
  · split_ifs <;> rfl
  · rfl

/-- Taking the lock keeps the invariant. Assumes: it holds, and the lock is free. -/
theorem Invariant.acquire (hinvariant : Invariant toml system) (hfree : system.holder = none)
    (thread : ℕ) (change : RulesChange) :
    Invariant toml ({ system with holder := some thread }.move thread (.holding change)) := by
  have houtside : ∀ other, (system.position other).holds = false := by
    intro other
    by_contra hholds
    have howner := hinvariant.owner other (by simpa using hholds)
    rw [hfree] at howner
    cases howner
  have hquiet : ∀ other, system.position other ≠ .saving := by
    intro other hsaving
    have hother := houtside other
    rw [hsaving] at hother
    cases hother
  refine ⟨hinvariant.valid, fun other hholds ↦ ?_, fun _ ↦ hinvariant.agrees hquiet⟩
  by_cases hsame : other = thread
  · rw [hsame]
    rfl
  · rw [position_move_of_ne _ hsame, houtside other] at hholds
    cases hholds

/-- Releasing the lock keeps the invariant. Assumes: it holds, and the thread is about to release.
-/
theorem Invariant.release (hinvariant : Invariant toml system) {thread : ℕ}
    (hreleasing : system.position thread = .releasing) :
    Invariant toml ({ system with holder := none }.move thread .idle) := by
  have hholder := hinvariant.owner thread (by rw [hreleasing]; rfl)
  have hquiet := hinvariant.no_save hholder (by rw [hreleasing]; decide)
  refine ⟨hinvariant.valid, fun other hholds ↦ ?_, fun _ ↦ hinvariant.agrees hquiet⟩
  by_cases hsame : other = thread
  · rw [hsame, position_move_self] at hholds
    cases hholds
  · rw [position_move_of_ne _ hsame, hinvariant.outside hholder hsame] at hholds
    cases hholds

/-- Changing the set keeps the invariant. Assumes: it holds. -/
theorem Invariant.change (hinvariant : Invariant toml system) (thread : ℕ) :
    Invariant toml (system.step toml (.change thread)) := by
  simp only [step]
  split
  · next change hposition =>
    have hholder := hinvariant.owner thread (by rw [hposition]; rfl)
    have hagrees := hinvariant.agrees
      (hinvariant.no_save hholder (by rw [hposition]; exact nofun))
    split
    · exact hinvariant.move_inside hholder hinvariant.valid fun _ ↦ hagrees
    · next rules happly =>
      refine hinvariant.move_inside hholder (RulesChange.valid_apply hinvariant.valid happly)
        fun _ ↦ ?_
      obtain ⟨loaded, hload, hsame⟩ := hagrees
      exact ⟨loaded, hload, (permanentRules_apply happly).trans hsame⟩
    · next rules happly =>
      exact hinvariant.move_inside hholder (RulesChange.valid_apply hinvariant.valid happly)
        fun hne ↦ absurd rfl hne
  · exact hinvariant

/-- A save that goes through keeps the invariant. Assumes: it holds, the library reads back what it
prints, and the save goes through. -/
theorem Invariant.save (hinvariant : Invariant toml system) (hreads : toml.ReadsBack) {thread : ℕ}
    {outcome : SaveOutcome} (hsucceeds : SaveSucceeds toml system (.save thread outcome)) :
    Invariant toml (system.step toml (.save thread outcome)) := by
  simp only [step]
  split
  · next hposition =>
    have hholder := hinvariant.owner thread (by rw [hposition]; rfl)
    refine hinvariant.move_inside hholder hinvariant.valid fun _ ↦ ?_
    exact ⟨_, RulesStore.loadable_of_save hreads hinvariant.valid (hsucceeds hposition), rfl⟩
  · exact hinvariant

/-- A step in which every save goes through keeps the invariant. Assumes: it holds, and the library
reads back what it prints. -/
theorem Invariant.step (hinvariant : Invariant toml system) (hreads : toml.ReadsBack)
    {op : RulesStep} (hsucceeds : SaveSucceeds toml system op) :
    Invariant toml (system.step toml op) := by
  cases op with
  | enqueue expireNow createNow key =>
    simp only [RulesSystem.step]
    split
    · exact hinvariant.setPrompts _
    · exact hinvariant
  | ruleDelete thread id => exact hinvariant.wait thread _
  | ruleAdd thread id executable verdict port => exact hinvariant.wait thread _
  | answer thread expireNow insertNow id verdict scope =>
    simp only [RulesSystem.step]
    split
    · next hidle _ =>
      refine (hinvariant.setPrompts _).move_outside ?_ (holds_afterAnswer _)
      rw [RulesSystem.setPrompts, hidle]
      rfl
    · exact hinvariant
  | acquire thread =>
    simp only [RulesSystem.step]
    split
    · next change hwaiting hfree =>
      split_ifs
      · exact hinvariant.move_outside (by rw [hwaiting]; rfl) rfl
      · exact hinvariant.acquire hfree thread change
    · exact hinvariant
  | change thread => exact hinvariant.change thread
  | save thread outcome => exact hinvariant.save hreads hsucceeds
  | release thread =>
    simp only [RulesSystem.step]
    split
    · next hreleasing => exact hinvariant.release hreleasing
    · exact hinvariant

/-- The steps of one thread on its own, from waiting for the lock to its release. -/
def alone (thread : ℕ) (outcome : SaveOutcome) : List RulesStep :=
  [.acquire thread, .change thread, .save thread outcome, .release thread]

/-- The steps of one thread on its own are the section under the rules lock. Assumes: the thread
waits, and the lock is free and not poisoned. -/
theorem changeRules_alone {thread : ℕ} {change : RulesChange}
    (hwaiting : system.position thread = .waiting change) (hfree : system.holder = none)
    (hclean : system.store.rules.poisoned = false) (outcome : SaveOutcome) :
    ((alone thread outcome).foldl (step toml) system).store =
      (system.store.changeRules toml outcome change).1 := by
  have hacquire : system.step toml (.acquire thread) =
      { system with holder := some thread }.move thread (.holding change) := by
    simp [step, hwaiting, hfree, hclean]
  simp only [alone, List.foldl_cons, List.foldl_nil, hacquire]
  rcases system.store.refuses_or_accepts change with hrefuses | ⟨rules, saved, haccepts⟩
  · obtain ⟨code, hchange⟩ := @PolicyStore.changeRules_of_refuses toml outcome _ _ hrefuses
    obtain ⟨code, happly⟩ : ∃ code, change.apply system.store.rules.value = .error code := by
      rcases hrefuses with hpoisoned | happly
      · rw [hclean] at hpoisoned
        cases hpoisoned
      · exact happly
    simp [step, happly, hchange]
  · cases saved with
    | false => simp [step, haccepts.2, PolicyStore.changeRules_of_unsaved haccepts, remember]
    | true => simp [step, haccepts.2, PolicyStore.changeRules_of_saved haccepts, remember]

/-! ### Runs -/

/-- The daemon after it loaded its rules: every thread is idle. -/
def started (store : PolicyStore) : RulesSystem := ⟨store, none, fun _ ↦ .idle⟩

/-- Along every interleaving in which every save goes through, whenever nobody holds the rules lock
the permanent rules in memory are those that the next start would load, in the same order. Assumes:
the library reads back what it prints, the rules in memory were just loaded, and every save goes
through. -/
theorem permanent_rules_agree (hreads : toml.ReadsBack) {store : PolicyStore}
    (hloaded : RulesStore.loadable toml store.directory = .ok store.rules.value)
    {ops : List RulesStep}
    (hsaves : ∀ index op, ops[index]? = some op →
      SaveSucceeds toml (Run.stateAt (step toml) (started store) ops index) op)
    (index : ℕ)
    (hfree : (Run.stateAt (step toml) (started store) ops index).holder = none) :
    ∃ loaded, RulesStore.loadable toml
        (Run.stateAt (step toml) (started store) ops index).store.directory = .ok loaded ∧
      (Run.stateAt (step toml) (started store) ops index).store.rules.value.permanentRules =
        loaded.permanentRules := by
  have hstart : Invariant toml (started store) :=
    ⟨RulesStore.valid_of_load hloaded, fun _ hholds ↦ absurd hholds Bool.false_ne_true,
      fun _ ↦ ⟨_, hloaded, rfl⟩⟩
  have hinvariant := Run.stateAt_invariant_of_steps (step toml) (started store) ops
    (Invariant toml) hstart (fun system op hbefore hsucceeds ↦ hbefore.step hreads hsucceeds)
    (fun index _ op hop ↦ hsaves index op hop) index le_rfl
  refine hinvariant.agrees fun thread hsaving ↦ ?_
  have howner := hinvariant.owner thread (by rw [hsaving]; rfl)
  rw [hfree] at howner
  cases howner

/-- The steps of a request that adds the rule for curl. -/
def curlSteps : List RulesStep :=
  .ruleAdd 0 1 "/usr/bin/curl" "allow" 443 :: alone 0 .done

/-- The rule for curl is added by the only request, and then it is in memory and on disk. -/
theorem permanent_rules_agree_curl :
    (Run.stateAt (step curlToml) (started .fresh) curlSteps 5).store.rules.value = ⟨[curlRule]⟩ ∧
      ∃ loaded, RulesStore.loadable curlToml
          (Run.stateAt (step curlToml) (started .fresh) curlSteps 5).store.directory = .ok loaded ∧
        (Run.stateAt (step curlToml) (started .fresh)
          curlSteps 5).store.rules.value.permanentRules = loaded.permanentRules := by
  refine ⟨by decide, permanent_rules_agree curlToml_readsBack rfl (fun index op hop ↦ ?_) 5
    (by decide)⟩
  match index, hop with
  | 0, hop => cases hop; trivial
  | 1, hop => cases hop; trivial
  | 2, hop => cases hop; trivial
  | 3, hop =>
    cases hop
    intro _
    decide
  | 4, hop => cases hop; trivial

end RulesSystem

end InterFire
