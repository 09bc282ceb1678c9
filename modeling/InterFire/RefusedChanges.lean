import InterFire.PolicyRequests

/-!
# What a refused change leaves behind

A request that is answered with an error should have changed nothing: not the rules in memory, not
the prompts but for their expiry, and not the rules that the next start would load (`Unchanged`).
`refused_change_unchanged_iff` says exactly when that is so. It fails when a request gets past its
checks and then breaks off: the rules in memory are changed before they are saved, and a prompt is
marked answered before its rule is inserted.
-/

set_option autoImplicit false
set_option relaxedAutoImplicit false

namespace InterFire

/-- The queue is the earlier one, or what the housekeeping makes of it at some instant. -/
def UpToExpiry (before after : Mutex PromptQueue) : Prop :=
  after = before ∨ ∃ now, after = before.store (before.value.expire now)

namespace PolicyStore

/-- The rules in memory, the prompts up to expiry, and the loadable rules are as before. -/
structure Unchanged (toml : Toml) (before after : PolicyStore) : Prop where
  rules : after.rules = before.rules
  prompts : UpToExpiry before.prompts after.prompts
  loadable : RulesStore.loadable toml after.directory = RulesStore.loadable toml before.directory

/-- The change is accepted and its set is to be saved, but the save does not go through. -/
def FailsToSave (toml : Toml) (outcome : SaveOutcome) (store : PolicyStore)
    (change : RulesChange) : Prop :=
  ∃ rules, store.Accepts change rules true ∧
    ¬ RulesStore.Saves toml outcome rules store.directory

/-- The request gets past its checks and then breaks off: a rule request fails to save, or the first
lasting answer to a pending prompt is refused its rule or fails to save it. -/
def BreaksOff (toml : Toml) (inputs : PolicyInputs) (store : PolicyStore) : PolicyRequest → Prop
  | .ruleAdd id executable verdict port =>
    inputs.peerMayMutate = true ∧
      FailsToSave toml inputs.save store (.add id executable verdict port)
  | .ruleDelete id =>
    inputs.peerMayMutate = true ∧ FailsToSave toml inputs.save store (.delete id)
  | .promptAnswer id verdict scope =>
    ∃ answer lifetime prompt, Reaches inputs store verdict scope answer lifetime ∧
      lifetime ≠ .once ∧ store.promptAt inputs.expireNow id = some prompt ∧
      prompt.state = .pending ∧
      (store.Refuses (.answer ⟨id, prompt.key, answer, lifetime, false⟩) ∨
        FailsToSave toml inputs.save store (.answer ⟨id, prompt.key, answer, lifetime, false⟩))

variable {toml : Toml} {inputs : PolicyInputs} {store : PolicyStore}

theorem Unchanged.refl (toml : Toml) (store : PolicyStore) : Unchanged toml store store :=
  ⟨rfl, .inl rfl, rfl⟩

theorem unchanged_aged (toml : Toml) (store : PolicyStore) (now : Instant) :
    Unchanged toml store (store.aged now) :=
  ⟨rfl, .inr ⟨now, rfl⟩, rfl⟩

/-- An accepted change that is saved is a change of the rules. Assumes: it is accepted. -/
theorem ne_of_accepts {change : RulesChange} {rules : RuleSet} {saved : Bool}
    (haccepts : store.Accepts change rules saved) : rules ≠ store.rules.value := by
  intro hsame
  have hrules := congrArg RuleSet.rules hsame
  rcases (RulesChange.apply_cases haccepts.2).2 with ⟨id, _, hremove⟩ | ⟨rule, _, hinsert⟩
  · obtain ⟨rfl, hlength⟩ := Prod.mk.inj hremove
    rw [decide_eq_true_eq] at hlength
    exact hlength (congrArg List.length hrules).symm
  · obtain ⟨rfl, _, _⟩ := RuleSet.of_insert_ok hinsert
    simp at hrules

/-- A failed save is an error. Assumes: the change fails to save. -/
theorem changeRules_of_failsToSave {outcome : SaveOutcome} {change : RulesChange}
    (hfails : FailsToSave toml outcome store change) :
    (store.changeRules toml outcome change).2 = .error "persistence_failed" ∧
      (store.changeRules toml outcome change).1.rules ≠ store.rules := by
  obtain ⟨rules, haccepts, hsaves⟩ := hfails
  rw [changeRules_of_saved haccepts]
  constructor
  · cases hresult : (RulesStore.save toml outcome rules store.directory).2 with
    | error error => simp [Except.mapError]
    | ok done => exact absurd ((RulesStore.save_ok_iff toml outcome rules _).mp hresult) hsaves
  · intro hsame
    exact ne_of_accepts haccepts (congrArg Mutex.value hsame)

/-- An accepted change fails to save exactly when it is to be saved and the save of its set does not
go through. Assumes: it is accepted. -/
theorem failsToSave_iff {outcome : SaveOutcome} {change : RulesChange} {rules : RuleSet}
    {saved : Bool} (haccepts : store.Accepts change rules saved) :
    FailsToSave toml outcome store change ↔
      saved = true ∧ ¬ RulesStore.Saves toml outcome rules store.directory := by
  constructor
  · rintro ⟨other, hother, hsaves⟩
    obtain ⟨rfl, rfl⟩ := Prod.mk.inj (Except.ok.inj (haccepts.2.symm.trans hother.2))
    exact ⟨rfl, hsaves⟩
  · rintro ⟨rfl, hsaves⟩
    exact ⟨rules, haccepts, hsaves⟩

/-- A change that is refused or fails to save ends in an error. Assumes: it is or does. -/
theorem changeRules_of_broken {outcome : SaveOutcome} {change : RulesChange}
    (hbroken : store.Refuses change ∨ FailsToSave toml outcome store change) :
    ∃ code, (store.changeRules toml outcome change).2 = .error code := by
  rcases hbroken with hrefuses | hfails
  · obtain ⟨code, hchange⟩ := @changeRules_of_refuses toml outcome _ _ hrefuses
    exact ⟨code, congrArg Prod.snd hchange⟩
  · exact ⟨_, (changeRules_of_failsToSave hfails).1⟩

/-- Every other change leaves its set in memory, and on disk if it is to be saved. Assumes: it is
not refused and does not fail to save. -/
theorem changeRules_of_done {outcome : SaveOutcome} {change : RulesChange}
    (hdone : ¬ (store.Refuses change ∨ FailsToSave toml outcome store change)) :
    ∃ rules saved, store.Accepts change rules saved ∧
      (saved = true → RulesStore.Saves toml outcome rules store.directory) ∧
      store.changeRules toml outcome change =
        ({ store with
            rules := store.rules.store rules
            directory :=
              if saved then (RulesStore.save toml outcome rules store.directory).1
              else store.directory }, .ok ()) := by
  obtain ⟨haccepted, hsaved⟩ := not_or.mp hdone
  rcases store.refuses_or_accepts change with hrefuses | ⟨rules, saved, haccepts⟩
  · exact absurd hrefuses haccepted
  · rw [failsToSave_iff haccepts, not_and, not_not] at hsaved
    refine ⟨rules, saved, haccepts, hsaved, ?_⟩
    cases saved with
    | false => exact changeRules_of_unsaved haccepts
    | true =>
      rw [changeRules_of_saved haccepts, (RulesStore.save_ok_iff ..).mpr (hsaved rfl)]
      rfl

/-- A change that ends in an error is refused or fails to save. Assumes: it ends in one. -/
theorem of_changeRules_error {outcome : SaveOutcome} {change : RulesChange} {code : String}
    (herror : (store.changeRules toml outcome change).2 = .error code) :
    store.Refuses change ∨ FailsToSave toml outcome store change := by
  by_contra hdone
  obtain ⟨_, _, _, _, hchange⟩ := changeRules_of_done hdone
  rw [hchange] at herror
  cases herror

theorem error_of_respond {result : Except String Unit} {code : String}
    (hrespond : respond result = .error code) : result = .error code := by
  cases result with
  | ok done => cases hrespond
  | error other =>
    obtain rfl := Response.error.inj hrespond
    rfl

/-- A rule request that ends in an error changes nothing unless it fails to save. -/
theorem unchanged_mutate_iff (toml : Toml) (inputs : PolicyInputs) (store : PolicyStore)
    (change : RulesChange) :
    ((∃ code, (store.mutate toml inputs change).2 = .error code) →
        Unchanged toml store (store.mutate toml inputs change).1) ↔
      ¬ (inputs.peerMayMutate = true ∧ FailsToSave toml inputs.save store change) := by
  cases hpeer : inputs.peerMayMutate with
  | false => simp [mutate, hpeer, Unchanged.refl]
  | true =>
    simp only [mutate, hpeer, Bool.not_true, Bool.false_eq_true, if_false, true_and]
    constructor
    · intro hunchanged hfails
      obtain ⟨herror, hrules⟩ := changeRules_of_failsToSave hfails
      exact hrules (hunchanged ⟨_, by rw [herror]; rfl⟩).rules
    · rintro hsaves ⟨code, herror⟩
      rcases of_changeRules_error (error_of_respond herror) with hrefuses | hfails
      · obtain ⟨_, hchange⟩ := changeRules_of_refuses hrefuses
        rw [hchange]
        exact Unchanged.refl toml store
      · exact absurd hfails hsaves

/-- The record that a first answer leaves. Assumes: the prompt is there after the housekeeping. -/
theorem get_recorded {id : UInt64} {prompt : Prompt}
    (hget : store.promptAt inputs.expireNow id = some prompt) (answer : Verdict)
    (lifetime : RuleScope) :
    (store.recorded inputs
        ⟨id, prompt.key, answer, lifetime, false⟩).prompts.value.prompts.get id =
      some (prompt.answeredWith answer lifetime) := by
  rw [recorded, Mutex.value_store, PromptQueue.get_record, if_pos rfl]
  exact congrArg (Option.map (Prompt.answeredWith answer lifetime)) hget

/-- A queue in which a pending prompt is marked answered is not what the housekeeping makes of it.
Assumes: the prompt was pending after the housekeeping. -/
theorem not_upToExpiry_recorded {id : UInt64} {prompt : Prompt}
    (hget : store.promptAt inputs.expireNow id = some prompt) (hpending : prompt.state = .pending)
    (answer : Verdict) (lifetime : RuleScope) :
    ¬ UpToExpiry store.prompts
      (store.recorded inputs ⟨id, prompt.key, answer, lifetime, false⟩).prompts := by
  have hafter := get_recorded hget answer lifetime
  -- Before the request the prompt was pending too, since only pending prompts stay so.
  obtain ⟨before, hbefore, hcases⟩ := PromptQueue.exists_of_get_expire hget
  obtain rfl : prompt = before := by
    rcases hcases with hsame | hexpired
    · exact hsame
    · rw [hexpired] at hpending
      cases hpending
  rintro (hsame | ⟨now, haged⟩)
  · rw [hsame, hbefore] at hafter
    have hstate := congrArg Prompt.state (Option.some.inj hafter)
    rw [hpending] at hstate
    cases hstate
  · rw [haged, Mutex.value_store] at hafter
    obtain ⟨aged, haged, hcases⟩ := PromptQueue.exists_get_expire hbefore now
    have hstate := congrArg Prompt.state (Option.some.inj (haged.symm.trans hafter))
    rcases hcases with rfl | rfl
    · rw [hpending] at hstate
      cases hstate
    · cases hstate

/-- An answer that ends in an error changes nothing unless it breaks off. -/
theorem unchanged_promptAnswer_iff (toml : Toml) (inputs : PolicyInputs) (store : PolicyStore)
    (id : UInt64) (verdict scope : String) :
    ((∃ code, (store.promptAnswer toml inputs id verdict scope).2 = .error code) →
        Unchanged toml store (store.promptAnswer toml inputs id verdict scope).1) ↔
      ¬ BreaksOff toml inputs store (.promptAnswer id verdict scope) := by
  constructor
  · rintro hunchanged ⟨answer, lifetime, prompt, hreaches, hlasting, hget, hpending, hbreaks⟩
    rw [promptAnswer_of_lasting hreaches hlasting hget hpending] at hunchanged
    have hprompts := prompts_changeRules toml inputs.save
      (.answer ⟨id, prompt.key, answer, lifetime, false⟩)
      (store.recorded inputs ⟨id, prompt.key, answer, lifetime, false⟩)
    refine not_upToExpiry_recorded hget hpending answer lifetime ?_
    rw [← hprompts]
    -- The section of an answer that breaks off ends in an error.
    obtain ⟨code, herror⟩ := @changeRules_of_broken toml
      (store.recorded inputs ⟨id, prompt.key, answer, lifetime, false⟩) _ _ hbreaks
    exact (hunchanged ⟨code, congrArg respond herror⟩).prompts
  · rintro hbreaks ⟨code, herror⟩
    rcases promptAnswer_cases toml inputs id verdict scope store with
      ⟨_, hrefused⟩ | ⟨_, hrefused⟩ | ⟨answer, lifetime, prompt, hreaches, hget,
        ⟨_, hrepeated⟩ | ⟨_, _, honce⟩ | ⟨hpending, hlasting⟩⟩
    · rw [hrefused]
      exact Unchanged.refl toml store
    · rw [hrefused]
      exact unchanged_aged toml store inputs.expireNow
    · rw [hrepeated] at herror
      cases herror
    · rw [honce] at herror
      cases herror
    · rw [promptAnswer_of_lasting hreaches hlasting hget hpending] at herror
      have hbroke := of_changeRules_error (error_of_respond herror)
      exact absurd ⟨answer, lifetime, prompt, hreaches, hlasting, hget, hpending, hbroke⟩ hbreaks

/-- A request that is answered with an error leaves the rules in memory, the prompts up to expiry
and the loadable rules as they were, exactly when it does not break off after its checks. -/
theorem refused_change_unchanged_iff (toml : Toml) (inputs : PolicyInputs) (store : PolicyStore)
    (request : PolicyRequest) :
    ((∃ code, (store.handle toml inputs request).2 = .error code) →
        Unchanged toml store (store.handle toml inputs request).1) ↔
      ¬ BreaksOff toml inputs store request := by
  cases request with
  | ruleAdd id executable verdict port =>
    exact unchanged_mutate_iff toml inputs store (.add id executable verdict port)
  | ruleDelete id => exact unchanged_mutate_iff toml inputs store (.delete id)
  | promptAnswer id verdict scope =>
    exact unchanged_promptAnswer_iff toml inputs store id verdict scope

/-- The directory of the document cannot be created, so adding a rule is answered with
persistence_failed; the rule is in memory all the same. -/
theorem failed_save_keeps_added_rule :
    (fresh.handle curlToml (PolicyInputs.at 0 (.createDirFailed "Not a directory"))
        (.ruleAdd 1 "/usr/bin/curl" "allow" 443)).2 = .error "persistence_failed" ∧
      (fresh.handle curlToml (PolicyInputs.at 0 (.createDirFailed "Not a directory"))
        (.ruleAdd 1 "/usr/bin/curl" "allow" 443)).1.rules.value = ⟨[curlRule]⟩ ∧
      ¬ Unchanged curlToml fresh (fresh.handle curlToml
        (PolicyInputs.at 0 (.createDirFailed "Not a directory"))
        (.ruleAdd 1 "/usr/bin/curl" "allow" 443)).1 := by
  have hrules : (fresh.handle curlToml (PolicyInputs.at 0 (.createDirFailed "Not a directory"))
      (.ruleAdd 1 "/usr/bin/curl" "allow" 443)).1.rules.value = ⟨[curlRule]⟩ := by decide
  refine ⟨by decide, hrules, fun hunchanged ↦ ?_⟩
  rw [hunchanged.rules] at hrules
  exact absurd hrules (by decide)

end PolicyStore

end InterFire
