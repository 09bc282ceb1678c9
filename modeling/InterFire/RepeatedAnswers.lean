import InterFire.SessionRules

/-!
# Repeated answers along a run

A repeated answer is acknowledged with a pong whatever became of the first one. Its pong means that
the recorded verdict took effect when the first answer went through, so that its rule was inserted
and, if it is permanent, saved, and nothing has disturbed the rule since (`Undisturbed`).
`pong_takes_effect_of_run` is the statement for every answer of every run: `Lasts` is the invariant
that carries the effect from the first answer to the repeated one, and `lasts_step` its step lemma.
-/

set_option autoImplicit false
set_option relaxedAutoImplicit false

namespace InterFire

/-- The rule gives its verdict to a connection of the prompt. -/
def Rule.Concerns (rule : Rule) (key : PromptKey) : Prop :=
  ∃ connection, Targets key connection ∧ rule.matches connection = true

/-- The change interferes with the verdict of a prompt: it removes a rule that gives the verdict to
a connection of the prompt, or adds one that gives another verdict to a connection of the prompt. -/
def RulesChange.Disturbs (rules : RuleSet) (key : PromptKey) (verdict : Verdict)
    (change : RulesChange) : Prop :=
  (∃ rule ∈ rules.rules, change = .delete rule.id ∧ rule.verdict = verdict ∧ rule.Concerns key) ∨
    ∃ rule, change.addition rules = some rule ∧ rule.verdict ≠ verdict ∧ rule.Concerns key

/-- A prompt has connections. -/
theorem exists_targets (key : PromptKey) : ∃ connection, Targets key connection :=
  ⟨{ executable := key.executable, protocol := .tcp, direction := .outbound,
     address := .v4 (Octets.toNeBytes key.ipv4), hostname := none, port := key.port },
    rfl, rfl, rfl, rfl, rfl⟩

/-! ### The verdict stays in force -/

section InForce

variable {rules after : RuleSet} {key : PromptKey} {verdict : Verdict}

/-- Fewer rules give the verdict as long as no rule that gives it goes. Assumes: the set is valid
and gives the verdict, and every rule that goes gives another verdict or does not concern the
prompt. -/
theorem inForce_of_subset (hvalid : rules.Valid) (hforce : InForce rules key verdict)
    (hsubset : ∀ rule ∈ after.rules, rule ∈ rules.rules)
    (hkept : ∀ rule ∈ rules.rules, rule.verdict = verdict → rule.Concerns key →
      rule ∈ after.rules) : InForce after key verdict := by
  intro connection htargets
  have hbefore := hforce connection htargets
  have hmatching : after.matching connection ⊆ rules.matching connection :=
    fun rule hrule ↦ ⟨hsubset rule hrule.1, hrule.2⟩
  rcases RuleSet.exists_wins hvalid connection with ⟨winner, hwins⟩ | hnone
  · have hverdict : winner.verdict = verdict :=
      (RuleSet.verdictFor_of_wins hwins).symm.trans hbefore
    have hmem : winner ∈ after.matching connection :=
      ⟨hkept winner hwins.1.1 hverdict ⟨connection, htargets, hwins.1.2⟩, hwins.1.2⟩
    have hstill : after.Wins connection winner :=
      Greatest.StrictlyGreatest.subset hwins hmatching hmem
    rw [RuleSet.verdictFor_of_wins hstill, hverdict]
  · rw [RuleSet.verdictFor_of_unmatched hnone] at hbefore
    rw [RuleSet.verdictFor_of_unmatched (Set.subset_eq_empty hmatching hnone), hbefore]

/-- One more rule with the verdict leaves it in force. Assumes: the new set is valid, the old one
gives the verdict, and the rule gives it too or does not concern the prompt. -/
theorem inForce_append {rule : Rule} (hvalid : (⟨rules.rules ++ [rule]⟩ : RuleSet).Valid)
    (hforce : InForce rules key verdict) (hrule : rule.Concerns key → rule.verdict = verdict) :
    InForce ⟨rules.rules ++ [rule]⟩ key verdict := by
  intro connection htargets
  have hbefore := hforce connection htargets
  have hmatching : rules.matching connection ⊆
      (⟨rules.rules ++ [rule]⟩ : RuleSet).matching connection :=
    fun existing hexisting ↦ ⟨List.mem_append_left _ hexisting.1, hexisting.2⟩
  rcases RuleSet.exists_wins hvalid connection with ⟨winner, hwins⟩ | hnone
  · rw [RuleSet.verdictFor_of_wins hwins]
    rcases List.mem_append.mp hwins.1.1 with hold | hnew
    · have hearlier : rules.Wins connection winner :=
        Greatest.StrictlyGreatest.subset hwins hmatching ⟨hold, hwins.1.2⟩
      exact (RuleSet.verdictFor_of_wins hearlier).symm.trans hbefore
    · obtain rfl := List.mem_singleton.mp hnew
      exact hrule ⟨connection, htargets, hwins.1.2⟩
  · rw [RuleSet.verdictFor_of_unmatched (Set.subset_eq_empty hmatching hnone)] at hbefore
    rw [RuleSet.verdictFor_of_unmatched hnone, hbefore]

end InForce

/-! ### The invariant -/

namespace PolicyStore

/-- The verdict of a prompt has taken effect to last: some rule in memory gives it to all
connections of the prompt, no rule gives another, and a permanent one is on disk. -/
structure Lasts (toml : Toml) (store : PolicyStore) (key : PromptKey) (verdict : Verdict)
    (lifetime : RuleScope) : Prop where
  valid : store.rules.value.Valid
  held : ∃ rule ∈ store.rules.value.rules, rule.verdict = verdict ∧
    ∀ connection, Targets key connection → rule.matches connection = true
  inForce : InForce store.rules.value key verdict
  onDisk : lifetime = .permanent → OnDisk toml store.directory key verdict

/-- The step, if it changes the rules, does not interfere with the verdict of a prompt. -/
def Undisturbed (store : PolicyStore) (key : PromptKey) (verdict : Verdict) : PolicyStep → Prop
  | .enqueue _ _ _ => True
  | .request inputs request => ∀ change rules saved, store.Makes inputs change request →
      store.Accepts change rules saved → ¬ change.Disturbs store.rules.value key verdict

section Steps

variable {toml : Toml} {store : PolicyStore} {key : PromptKey} {verdict : Verdict}
  {lifetime : RuleScope}

/-- What a step leaves is valid. Assumes: the set was valid. -/
theorem valid_step (toml : Toml) (hvalid : store.rules.value.Valid) (op : PolicyStep) :
    (store.step toml op).rules.value.Valid := by
  cases op with
  | enqueue expireNow createNow key =>
    unfold step
    dsimp only
    split
    · exact hvalid
    · exact hvalid
  | request inputs request =>
    rcases handle_cases toml inputs store request with
      ⟨hrules, _⟩ | ⟨change, rules, saved, _, haccepts, hrules, _⟩
    · rw [step, hrules]
      exact hvalid
    · rw [step, hrules]
      exact RulesChange.valid_apply hvalid haccepts.2

/-- A document that is replaced by one with a rule for the prompt keeps the verdict on disk, and so
does one that is not replaced. Assumes: the library reads back what it prints, the verdict is on
disk, and the saved set has a rule that gives it to all connections of the prompt. -/
theorem onDisk_save (hreads : toml.ReadsBack) {directory : RulesDirectory}
    (hdisk : OnDisk toml directory key verdict) {rules : RuleSet}
    (hheld : ∃ rule ∈ rules.rules, rule.verdict = verdict ∧
      ∀ connection, Targets key connection → rule.matches connection = true)
    (outcome : SaveOutcome) :
    OnDisk toml (RulesStore.save toml outcome rules directory).1 key verdict := by
  rcases RulesStore.document_save toml outcome rules directory with
    ⟨_, data, hprint, hdata⟩ | ⟨_, hsame⟩
  · exact ⟨data, _, hdata, hreads _ _ hprint, hheld⟩
  · unfold OnDisk
    rw [hsame]
    exact hdisk

/-- An accepted change that does not interfere keeps the rule and its effect. Assumes: the verdict
lasts, and the change is accepted and does not disturb it. -/
theorem Lasts.apply (hlasts : Lasts toml store key verdict lifetime) {change : RulesChange}
    {rules : RuleSet} {saved : Bool} (happly : change.apply store.rules.value = .ok (rules, saved))
    (hquiet : ¬ change.Disturbs store.rules.value key verdict) :
    (∃ rule ∈ rules.rules, rule.verdict = verdict ∧
      ∀ connection, Targets key connection → rule.matches connection = true) ∧
      InForce rules key verdict := by
  obtain ⟨rule, hrule, hverdict, hmatches⟩ := hlasts.held
  obtain ⟨connection, htargets⟩ := exists_targets key
  have hconcerns : rule.Concerns key := ⟨connection, htargets, hmatches connection htargets⟩
  have hvalid := RulesChange.valid_apply hlasts.valid happly
  rcases (RulesChange.apply_cases happly).2 with ⟨id, rfl, hremove⟩ | ⟨new, hnew, hinsert⟩
  · obtain ⟨rfl, _⟩ := Prod.mk.inj hremove
    have hkept : ∀ existing ∈ store.rules.value.rules, existing.verdict = verdict →
        existing.Concerns key →
        existing ∈ store.rules.value.rules.filter (fun kept ↦ decide (kept.id ≠ id)) := by
      intro existing hexisting hsame hexistingConcerns
      refine List.mem_filter.mpr ⟨hexisting, decide_eq_true fun hid ↦ hquiet (.inl ?_)⟩
      exact ⟨existing, hexisting, by rw [hid], hsame, hexistingConcerns⟩
    refine ⟨⟨rule, hkept rule hrule hverdict hconcerns, hverdict, hmatches⟩, ?_⟩
    exact inForce_of_subset hlasts.valid hlasts.inForce
      (fun existing hexisting ↦ (List.mem_filter.mp hexisting).1) hkept
  · obtain ⟨rfl, _, _⟩ := RuleSet.of_insert_ok hinsert
    refine ⟨⟨rule, List.mem_append_left _ hrule, hverdict, hmatches⟩, ?_⟩
    refine inForce_append hvalid hlasts.inForce fun hnewConcerns ↦ ?_
    by_contra hother
    exact hquiet (.inr ⟨new, hnew, hother, hnewConcerns⟩)

/-- A step that does not interfere keeps the effect of an answer. Assumes: the library reads back
what it prints, the verdict lasts, and the step does not disturb it. -/
theorem lasts_step (hreads : toml.ReadsBack) (hlasts : Lasts toml store key verdict lifetime)
    {op : PolicyStep} (hquiet : store.Undisturbed key verdict op) :
    Lasts toml (store.step toml op) key verdict lifetime := by
  cases op with
  | enqueue expireNow createNow asked =>
    unfold step
    dsimp only
    split
    · exact ⟨hlasts.valid, hlasts.held, hlasts.inForce, hlasts.onDisk⟩
    · exact hlasts
  | request inputs request =>
    have hvalid := valid_step toml hlasts.valid (.request inputs request)
    unfold step at hvalid ⊢
    rcases handle_cases toml inputs store request with
      ⟨hrules, hdirectory⟩ | ⟨change, rules, saved, hmakes, haccepts, hrules, hdirectory⟩
    · refine ⟨hvalid, ?_, ?_, ?_⟩
      · rw [hrules]
        exact hlasts.held
      · rw [hrules]
        exact hlasts.inForce
      · rw [hdirectory]
        exact hlasts.onDisk
    · obtain ⟨hheld, hforce⟩ := hlasts.apply haccepts.2 (hquiet change rules saved hmakes haccepts)
      refine ⟨hvalid, ?_, ?_, fun hpermanent ↦ ?_⟩
      · rw [hrules]
        exact hheld
      · rw [hrules]
        exact hforce
      · rw [hdirectory]
        split_ifs
        · exact onDisk_save hreads (hlasts.onDisk hpermanent) hheld inputs.save
        · exact hlasts.onDisk hpermanent

/-- A first answer that goes through takes effect to last. Assumes: the library reads back what it
prints, the set is valid, the answer reaches the queue, its scope lasts, the prompt is pending, and
the answer neither breaks off nor is overruled. -/
theorem lasts_of_first_answer (hreads : toml.ReadsBack) (hvalid : store.rules.value.Valid)
    {inputs : PolicyInputs} {id : UInt64} {words scope : String} {prompt : Prompt}
    (hreaches : Reaches inputs store words scope verdict lifetime) (hlasting : lifetime ≠ .once)
    (hget : store.promptAt inputs.expireNow id = some prompt) (hpending : prompt.state = .pending)
    (hdone : ¬ BreaksOff toml inputs store (.promptAnswer id words scope))
    (hunruled : ¬ Overruled store.rules.value prompt.key verdict) :
    Lasts toml (store.handle toml inputs (.promptAnswer id words scope)).1 prompt.key verdict
      lifetime := by
  have hafter := valid_step toml hvalid (.request inputs (.promptAnswer id words scope))
  obtain ⟨after, saved, hhandle, _, haccepts, hdisk⟩ :=
    firstAnswer_of_done hreads hreaches hlasting hget hpending hdone
  rw [step, hhandle] at hafter
  rw [hhandle]
  refine ⟨hafter, ?_, (inForce_answer_iff haccepts).mpr hunruled, hdisk⟩
  refine ⟨store.rules.value.answeredRule ⟨id, prompt.key, verdict, lifetime, false⟩, ?_, rfl,
    fun connection htargets ↦ matches_answeredRule htargets _ _ _⟩
  rw [(of_accepts_answer haccepts).2.1]
  exact List.mem_append_right _ List.mem_cons_self

end Steps

/-! ### Runs -/

/-- The step at an index of a run is the first answer to a prompt, it is to last, and it goes
through: it neither breaks off nor is overruled. -/
def WentThrough (toml : Toml) (start : PolicyStore) (ops : List PolicyStep) (index : ℕ)
    (id : UInt64) (prompt : Prompt) (answer : Verdict) (lifetime : RuleScope) : Prop :=
  ∃ inputs verdict scope, ops[index]? = some (.request inputs (.promptAnswer id verdict scope)) ∧
    Reaches inputs (Run.stateAt (step toml) start ops index) verdict scope answer lifetime ∧
    lifetime ≠ .once ∧
    (Run.stateAt (step toml) start ops index).promptAt inputs.expireNow id = some prompt ∧
    prompt.state = .pending ∧
    ¬ BreaksOff toml inputs (Run.stateAt (step toml) start ops index)
      (.promptAnswer id verdict scope) ∧
    ¬ Overruled (Run.stateAt (step toml) start ops index).rules.value prompt.key answer

/-- What a lasting answer at an index of a run has to meet: a first one that does not break off is
not overruled, and a repeated one finds the record of an earlier answer that went through and whose
verdict no step since has disturbed. -/
def StandsAt (toml : Toml) (start : PolicyStore) (ops : List PolicyStep) (index : ℕ)
    (inputs : PolicyInputs) (id : UInt64) (verdict scope : String) : Prop :=
  ∀ answer lifetime prompt,
    Reaches inputs (Run.stateAt (step toml) start ops index) verdict scope answer lifetime →
    lifetime ≠ .once →
    (Run.stateAt (step toml) start ops index).promptAt inputs.expireNow id = some prompt →
    (prompt.state = .pending →
      ¬ BreaksOff toml inputs (Run.stateAt (step toml) start ops index)
        (.promptAnswer id verdict scope) →
      ¬ Overruled (Run.stateAt (step toml) start ops index).rules.value prompt.key answer) ∧
    (prompt.state = .answered → ∃ first < index, ∃ asked recorded recordedScope,
      prompt = asked.answeredWith recorded recordedScope ∧
      WentThrough toml start ops first id asked recorded recordedScope ∧
      ∀ between, first < between → between < index → ∀ op, ops[between]? = some op →
        (Run.stateAt (step toml) start ops between).Undisturbed asked.key recorded op)

/-- The rules of a daemon that has been started are valid along every run. Assumes: it started. -/
theorem valid_stateAt {toml : Toml} {directory : RulesDirectory} {start : PolicyStore}
    (hstart : PolicyStore.start toml directory = some start) (ops : List PolicyStep) (index : ℕ) :
    (Run.stateAt (step toml) start ops index).rules.value.Valid := by
  have hvalid : start.rules.value.Valid := by
    unfold PolicyStore.start at hstart
    split at hstart
    · next rules hload =>
      obtain rfl := Option.some.inj hstart
      exact RulesStore.valid_of_load hload
    · cases hstart
  exact Run.stateAt_invariant (step toml) start ops (fun store ↦ store.rules.value.Valid) hvalid
    (fun _ op hbefore ↦ valid_step toml hbefore op) index

/-- The effect of an answer that went through lasts up to every later index before which no step
disturbs it. Assumes: the library reads back what it prints, the daemon started, the answer went
through, and no step since has disturbed its verdict. -/
theorem lasts_of_wentThrough {toml : Toml} (hreads : toml.ReadsBack) {directory : RulesDirectory}
    {start : PolicyStore} (hstart : PolicyStore.start toml directory = some start)
    {ops : List PolicyStep} {first index : ℕ} (hlt : first < index) {id : UInt64} {prompt : Prompt}
    {answer : Verdict} {lifetime : RuleScope}
    (hwent : WentThrough toml start ops first id prompt answer lifetime)
    (hquiet : ∀ between, first < between → between < index → ∀ op, ops[between]? = some op →
      (Run.stateAt (step toml) start ops between).Undisturbed prompt.key answer op) :
    Lasts toml (Run.stateAt (step toml) start ops index) prompt.key answer lifetime := by
  obtain ⟨inputs, verdict, scope, hop, hreaches, hlasting, hget, hpending, hdone, hunruled⟩ := hwent
  have hfirst : Lasts toml (Run.stateAt (step toml) start ops (first + 1)) prompt.key answer
      lifetime := by
    rw [Run.stateAt_succ (step toml) start ops hop]
    exact lasts_of_first_answer hreads (valid_stateAt hstart ops first) hreaches hlasting hget
      hpending hdone hunruled
  exact Run.stateAt_induction (step toml) start ops
    (fun store ↦ Lasts toml store prompt.key answer lifetime) hfirst
    (fun between hafter hbefore op hop hlasts ↦
      lasts_step hreads hlasts (hquiet between (by omega) hbefore op hop)) index (by omega) le_rfl

/-- In every state that a started daemon reaches, a pong to a lasting answer means that the recorded
verdict took effect. Assumes: the library reads back what it prints, the daemon started, and the
answer stands: a first one that does not break off is not overruled, and a repeated one finds the
record of an answer that went through and was not disturbed since. -/
theorem pong_takes_effect_of_run {toml : Toml} (hreads : toml.ReadsBack)
    (directory : RulesDirectory) {start : PolicyStore}
    (hstart : PolicyStore.start toml directory = some start) (ops : List PolicyStep) (index : ℕ)
    (inputs : PolicyInputs) (id : UInt64) (verdict scope : String)
    (hstands : StandsAt toml start ops index inputs id verdict scope) :
    PongTakesEffect toml inputs (Run.stateAt (step toml) start ops index) id verdict scope := by
  refine (pong_takes_effect_iff hreads _ _ _ _ _).mpr
    fun answer lifetime prompt hreaches hlasting hget ↦ ?_
  obtain ⟨hfirst, hrepeated⟩ := hstands answer lifetime prompt hreaches hlasting hget
  refine ⟨hfirst, fun hanswered ↦ ?_⟩
  obtain ⟨first, hlt, asked, recorded, recordedScope, rfl, hwent, hquiet⟩ := hrepeated hanswered
  have hlasts := lasts_of_wentThrough hreads hstart hlt hwent hquiet
  have hrecord : ((Run.stateAt (step toml) start ops index).aged
      inputs.expireNow).prompts.value.prompts.get id =
        some (asked.answeredWith recorded recordedScope) := hget
  exact (tookEffect_iff hrecord).mpr ⟨hlasts.inForce, hlasts.onDisk⟩

/-- A prompt for curl, and its permanent answer. -/
def answeredRun : List PolicyStep :=
  [.enqueue 0 0 curlKey, .request (.at 1 .done) (.promptAnswer 1 "allow" "permanent")]

/-- The answer goes through. -/
theorem wentThrough_answeredRun :
    WentThrough curlToml fresh answeredRun 1 1 (PromptQueue.withDefaults.newPrompt 0 curlKey) .allow
      .permanent := by
  have hget : (Run.stateAt (step curlToml) fresh answeredRun 1).promptAt 1 1 =
      some (PromptQueue.withDefaults.newPrompt 0 curlKey) := by decide
  have hreaches : Reaches (.at 1 .done) (Run.stateAt (step curlToml) fresh answeredRun 1) "allow"
      "permanent" .allow .permanent := ⟨rfl, rfl, rfl, rfl⟩
  have hchange : ((Run.stateAt (step curlToml) fresh answeredRun 1).changeRules curlToml .done
      (.answer ⟨1, curlKey, .allow, .permanent, false⟩)).2.toBool = true := by decide
  have hdone : ∀ code, ((Run.stateAt (step curlToml) fresh answeredRun 1).changeRules curlToml .done
      (.answer ⟨1, curlKey, .allow, .permanent, false⟩)).2 ≠ .error code := by
    intro code herror
    rw [herror] at hchange
    cases hchange
  refine ⟨.at 1 .done, "allow", "permanent", rfl, hreaches, by decide, hget, rfl, ?_, ?_⟩
  · rw [breaksOff_answer_iff hreaches (by decide) hget rfl]
    rintro (hrefuses | hfails)
    · obtain ⟨code, herror⟩ := @changeRules_of_refuses curlToml .done _ _ hrefuses
      exact hdone code (congrArg Prod.snd herror)
    · exact hdone _ (changeRules_of_failsToSave hfails).1
  · rintro ⟨connection, best, _, hdecider, _⟩
    cases hdecider

/-- The repeated answer about curl is answered with a pong, which means that the first one took
effect. -/
theorem repeated_answer_takes_effect :
    curlToml.ReadsBack ∧ PolicyStore.start curlToml ⟨none, none⟩ = some fresh ∧
      ((Run.stateAt (step curlToml) fresh answeredRun 2).handle curlToml (.at 2 .done)
        (.promptAnswer 1 "allow" "permanent")).2 = .pong ∧
      PongTakesEffect curlToml (.at 2 .done) (Run.stateAt (step curlToml) fresh answeredRun 2) 1
        "allow" "permanent" := by
  have hrecord : (Run.stateAt (step curlToml) fresh answeredRun 2).promptAt 2 1 =
      some ((PromptQueue.withDefaults.newPrompt 0 curlKey).answeredWith .allow .permanent) := by
    decide
  refine ⟨curlToml_readsBack, rfl, by decide, ?_⟩
  refine pong_takes_effect_of_run curlToml_readsBack ⟨none, none⟩ rfl answeredRun 2 _ 1 "allow"
    "permanent" fun answer lifetime prompt _ _ hget ↦ ?_
  obtain rfl := Option.some.inj (hget.symm.trans hrecord)
  refine ⟨fun hpending ↦ ?_, fun _ ↦ ?_⟩
  · cases hpending
  · exact ⟨1, by decide, _, .allow, .permanent, rfl, wentThrough_answeredRun,
      fun between hafter hbefore ↦ by omega⟩

end PolicyStore

end InterFire
