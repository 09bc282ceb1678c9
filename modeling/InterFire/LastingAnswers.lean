import InterFire.RefusedChanges
import InterFire.RuleChoice

/-!
# What a pong to a lasting answer means

A prompt that is answered for the session or for good should be decided by its answer from then on,
and a permanent answer should be in the rules document. `pong_takes_effect_iff` says in which states
the pong means that. A first answer inserts a rule for the executable and port with an id above all
others, so it decides unless a rule with more than its three constraints does; a repeated answer is
acknowledged whatever became of the first one.
-/

set_option autoImplicit false
set_option relaxedAutoImplicit false

namespace InterFire

/-- The outbound TCP connections of a prompt's executable to its destination and port. -/
def Targets (key : PromptKey) (connection : Connection) : Prop :=
  connection.executable = key.executable ∧ connection.protocol = .tcp ∧
    connection.direction = .outbound ∧ connection.address = .v4 (Octets.toNeBytes key.ipv4) ∧
    connection.port = key.port

/-- The rules give a verdict to every connection of a prompt. -/
def InForce (rules : RuleSet) (key : PromptKey) (verdict : Verdict) : Prop :=
  ∀ connection, Targets key connection → rules.verdictFor connection = verdict

/-- The document holds a rule that gives a verdict to every connection of a prompt. -/
def OnDisk (toml : Toml) (directory : RulesDirectory) (key : PromptKey) (verdict : Verdict) :
    Prop :=
  ∃ text document, directory.document = some text ∧ toml.fromStr text = .ok document ∧
    ∃ rule ∈ document.rules, rule.verdict = verdict ∧
      ∀ connection, Targets key connection → rule.matches connection = true

namespace RuleSet

/-- The rule that decides a connection. -/
def decider (set : RuleSet) (connection : Connection) : Option Rule :=
  maxByKey Rule.precedence (set.rules.filter (·.matches connection))

theorem verdictFor_eq (set : RuleSet) (connection : Connection) :
    set.verdictFor connection =
      match set.decider connection with
      | some rule => rule.verdict
      | none => .prompt := rfl

/-- The decider is one of the rules. Assumes: there is one. -/
theorem mem_of_decider {set : RuleSet} {connection : Connection} {rule : Rule}
    (hdecider : set.decider connection = some rule) : rule ∈ set.rules := by
  unfold decider at hdecider
  cases hfilter : set.rules.filter (·.matches connection) with
  | nil =>
    rw [hfilter] at hdecider
    cases hdecider
  | cons first rest =>
    rw [hfilter, maxByKey_cons] at hdecider
    obtain rfl := Option.some.inj hdecider
    have hmem := (Greatest.scan_spec Rule.precedence rest first).1
    rw [← hfilter] at hmem
    exact (List.mem_filter.mp hmem).1

/-- The decider after a matching rule is appended. Assumes: the rule matches. -/
theorem decider_append {set : RuleSet} {connection : Connection} {rule : Rule}
    (hmatches : rule.matches connection = true) :
    (⟨set.rules ++ [rule]⟩ : RuleSet).decider connection =
      match set.decider connection with
      | some best => some (Greatest.keepGreater Rule.precedence best rule)
      | none => some rule := by
  unfold decider
  rw [List.filter_append, List.filter_singleton, hmatches]
  cases set.rules.filter (·.matches connection) with
  | nil => rfl
  | cons first rest =>
    rw [cond_true, List.cons_append, maxByKey_cons, maxByKey_cons, List.foldl_append]
    rfl

/-- The greater of two words bounds both and is one of them. -/
instance : Std.LawfulOrderMax UInt64 where
  max_eq_or first second := by
    simp only [Max.max]
    split_ifs
    · exact .inr rfl
    · exact .inl rfl
  max_le_iff first second bound := by
    simp only [Max.max]
    split_ifs with hle
    all_goals
      simp only [UInt64.le_iff_toNat_le] at *
      omega

/-- An unused next id is above all others. Assumes: it is unused. -/
theorem id_lt_nextId {set : RuleSet} (hunused : ∀ existing ∈ set.rules, existing.id ≠ set.nextId) :
    ∀ existing ∈ set.rules, existing.id < set.nextId := by
  intro existing hexisting
  have hmem : existing.id ∈ set.rules.map Rule.id := List.mem_map_of_mem hexisting
  cases hmax : (set.rules.map Rule.id).max? with
  | none =>
    rw [List.max?_eq_none_iff] at hmax
    rw [hmax] at hmem
    cases hmem
  | some greatest =>
    obtain ⟨hgreatest, hle⟩ := List.max?_eq_some_iff.mp hmax
    have hnext : set.nextId = saturatingAdd greatest 1 := by
      rw [nextId, hmax, Option.getD_some]
    obtain ⟨holder, hholder, hid⟩ := List.mem_map.mp hgreatest
    have hfree := hunused holder hholder
    rw [hid, hnext] at hfree
    have hbound := UInt64.le_iff_toNat_le.mp (hle existing.id hmem)
    have hone : (1 : UInt64).toNat = 1 := rfl
    rw [hnext, UInt64.lt_iff_toNat_lt]
    unfold saturatingAdd at hfree ⊢
    split_ifs at hfree ⊢ with hroom
    · rw [UInt64.toNat_add]
      omega
    · -- A saturated next id is the greatest id itself.
      exfalso
      apply hfree
      rw [← UInt64.toNat_inj]
      have hlt := greatest.toNat_lt
      have hlast : (UInt64.ofNat (2 ^ 64 - 1)).toNat = 2 ^ 64 - 1 := by decide
      omega

end RuleSet

/-- The rule of an answered prompt matches its connections. Assumes: the connection is one. -/
theorem matches_answeredRule {key : PromptKey} {connection : Connection}
    (htargets : Targets key connection) (id : UInt64) (verdict : Verdict) (scope : Scope) :
    (Rule.forPort id key.executable key.port verdict scope).matches connection = true := by
  obtain ⟨hexecutable, hprotocol, hdirection, _, hport⟩ := htargets
  simp [Rule.matches, Rule.forPort, Rule.admits, hexecutable, hprotocol, hdirection, hport]

/-- A rule with a greater id and three constraints decides unless a more constrained rule does.
Assumes: the rule matches, it sets three constraints, and its id is above all others. -/
theorem verdictFor_append {set : RuleSet} {connection : Connection} {rule : Rule}
    (hmatches : rule.matches connection = true) (hthree : rule.constrained = 3)
    (habove : ∀ existing ∈ set.rules, existing.id < rule.id) :
    (⟨set.rules ++ [rule]⟩ : RuleSet).verdictFor connection = rule.verdict ↔
      ∀ best, set.decider connection = some best → 3 < best.constrained →
        best.verdict = rule.verdict := by
  rw [RuleSet.verdictFor_eq, RuleSet.decider_append hmatches]
  cases hdecider : set.decider connection with
  | none => simp
  | some best =>
    have hid := habove best (RuleSet.mem_of_decider hdecider)
    have hkeeps : best.precedence ≤ rule.precedence ↔ ¬ 3 < best.constrained := by
      rw [← not_lt, Rule.precedence_lt_iff, hthree]
      refine not_congr ⟨?_, .inl⟩
      rintro (hmore | ⟨_, hlater⟩)
      · exact hmore
      · rw [UInt64.lt_iff_toNat_lt] at hid hlater
        omega
    simp only [Greatest.keepGreater, hkeeps, Option.some.injEq, forall_eq']
    by_cases hmore : 3 < best.constrained
    · simp [hmore]
    · simp [hmore]

/-! ### Answers -/

namespace PolicyStore

variable {toml : Toml} {inputs : PolicyInputs} {store : PolicyStore} {id : UInt64}
  {verdict scope : String}

/-- The verdict recorded for a prompt is in force for its connections and, if the recorded scope is
permanent, the document holds a rule with it. -/
def TookEffect (toml : Toml) (store : PolicyStore) (id : UInt64) : Prop :=
  ∀ prompt recorded, store.prompts.value.prompts.get id = some prompt →
    prompt.answerVerdict = some recorded →
    InForce store.rules.value prompt.key recorded ∧
      (prompt.answerScope = some .permanent → OnDisk toml store.directory prompt.key recorded)

/-- A pong to an answer whose scope is to last means that the recorded verdict took effect. -/
def PongTakesEffect (toml : Toml) (inputs : PolicyInputs) (store : PolicyStore) (id : UInt64)
    (verdict scope : String) : Prop :=
  scope = "session" ∨ scope = "permanent" →
    (store.handle toml inputs (.promptAnswer id verdict scope)).2 = .pong →
    TookEffect toml (store.handle toml inputs (.promptAnswer id verdict scope)).1 id

/-- A rule with more constraints than an answer sets decides a connection of the prompt otherwise.
-/
def Overruled (rules : RuleSet) (key : PromptKey) (verdict : Verdict) : Prop :=
  ∃ connection best, Targets key connection ∧ rules.decider connection = some best ∧
    3 < best.constrained ∧ best.verdict ≠ verdict

/-- What the state before a lasting answer has to meet: a first answer that does not break off is
not overruled, and a repeated one finds its recorded verdict in force and on disk already. -/
def AnswerStands (toml : Toml) (inputs : PolicyInputs) (store : PolicyStore) (id : UInt64)
    (verdict scope : String) : Prop :=
  ∀ answer lifetime prompt, Reaches inputs store verdict scope answer lifetime →
    lifetime ≠ .once → store.promptAt inputs.expireNow id = some prompt →
    (prompt.state = .pending → ¬ BreaksOff toml inputs store (.promptAnswer id verdict scope) →
      ¬ Overruled store.rules.value prompt.key answer) ∧
    (prompt.state = .answered → TookEffect toml (store.aged inputs.expireNow) id)

/-- The scopes that last are the two that are not once. Assumes: the word is a scope. -/
theorem lasting_iff {lifetime : RuleScope} (hscope : answerScope scope = some lifetime) :
    (scope = "session" ∨ scope = "permanent") ↔ lifetime ≠ .once := by
  unfold answerScope at hscope
  split at hscope
  · obtain rfl := Option.some.inj hscope
    simp
  · obtain rfl := Option.some.inj hscope
    simp
  · obtain rfl := Option.some.inj hscope
    simp
  · cases hscope

/-- The rule of an answer sets three constraints. -/
theorem constrained_forPort (id : UInt64) (executable : String) (port : UInt16) (verdict : Verdict)
    (scope : Scope) : (Rule.forPort id executable port verdict scope).constrained = 3 := rfl

/-- The accepted rule of an answer is in force exactly when it is not overruled. Assumes: the change
is accepted. -/
theorem inForce_answer_iff {answered : Answered} {rules : RuleSet} {saved : Bool}
    (haccepts : store.Accepts (.answer answered) rules saved) :
    InForce rules answered.key answered.verdict ↔
      ¬ Overruled store.rules.value answered.key answered.verdict := by
  obtain ⟨_, rfl, hunused⟩ := of_accepts_answer haccepts
  have habove := RuleSet.id_lt_nextId hunused
  have hverdict : ∀ connection, Targets answered.key connection →
      ((⟨store.rules.value.rules ++ [store.rules.value.answeredRule answered]⟩ :
          RuleSet).verdictFor connection = answered.verdict ↔
        ∀ best, store.rules.value.decider connection = some best → 3 < best.constrained →
          best.verdict = answered.verdict) := fun connection htargets ↦
    verdictFor_append (matches_answeredRule htargets _ _ _) (constrained_forPort ..) habove
  constructor
  · rintro hforce ⟨connection, best, htargets, hdecider, hmore, hne⟩
    exact hne ((hverdict connection htargets).mp (hforce connection htargets) best hdecider hmore)
  · intro hoverruled connection htargets
    refine (hverdict connection htargets).mpr fun best hdecider hmore ↦ ?_
    by_contra hne
    exact hoverruled ⟨connection, best, htargets, hdecider, hmore, hne⟩

/-- A saved answer is on disk. Assumes: the library reads back what it prints, the change is
accepted and saved. -/
theorem onDisk_of_saves (hreads : toml.ReadsBack) {answered : Answered} {rules : RuleSet}
    (haccepts : store.Accepts (.answer answered) rules true) {outcome : SaveOutcome}
    (hsaves : RulesStore.Saves toml outcome rules store.directory) :
    OnDisk toml (RulesStore.save toml outcome rules store.directory).1 answered.key
      answered.verdict := by
  obtain ⟨data, hprint, hdirectory⟩ :=
    RulesStore.of_save_ok ((RulesStore.save_ok_iff toml outcome rules store.directory).mpr hsaves)
  obtain ⟨_, rfl, _⟩ := of_accepts_answer haccepts
  refine ⟨data, _, by rw [hdirectory], hreads _ _ hprint,
    store.rules.value.answeredRule answered, ?_, rfl, fun connection htargets ↦ ?_⟩
  · exact List.mem_append_right _ List.mem_cons_self
  · exact matches_answeredRule htargets _ _ _

/-- The effect of an answer, read off its record. Assumes: the prompt has the record. -/
theorem tookEffect_iff {prompt : Prompt} {answer : Verdict} {lifetime : RuleScope}
    (hget : store.prompts.value.prompts.get id = some (prompt.answeredWith answer lifetime)) :
    TookEffect toml store id ↔ InForce store.rules.value prompt.key answer ∧
      (lifetime = .permanent → OnDisk toml store.directory prompt.key answer) := by
  constructor
  · intro heffect
    have hrecorded := heffect _ answer hget rfl
    exact ⟨hrecorded.1, fun hpermanent ↦ hrecorded.2 (congrArg some hpermanent)⟩
  · rintro ⟨hforce, hdisk⟩ other recorded hother hverdict
    obtain rfl := Option.some.inj (hget.symm.trans hother)
    obtain rfl := Option.some.inj hverdict
    exact ⟨hforce, fun hpermanent ↦ hdisk (Option.some.inj hpermanent)⟩

/-- A first answer breaks off exactly when its rule is refused or not saved. Assumes: it reaches the
queue, its scope lasts, and the prompt is pending. -/
theorem breaksOff_answer_iff {answer : Verdict} {lifetime : RuleScope} {prompt : Prompt}
    (hreaches : Reaches inputs store verdict scope answer lifetime) (hlasting : lifetime ≠ .once)
    (hget : store.promptAt inputs.expireNow id = some prompt)
    (hpending : prompt.state = .pending) :
    BreaksOff toml inputs store (.promptAnswer id verdict scope) ↔
      store.Refuses (.answer ⟨id, prompt.key, answer, lifetime, false⟩) ∨
        FailsToSave toml inputs.save store (.answer ⟨id, prompt.key, answer, lifetime, false⟩) := by
  constructor
  · rintro ⟨otherAnswer, otherLifetime, other, hother, _, hotherGet, _, hbreaks⟩
    obtain rfl := Option.some.inj (hreaches.verdict.symm.trans hother.verdict)
    obtain rfl := Option.some.inj (hreaches.scope.symm.trans hother.scope)
    obtain rfl := Option.some.inj (hget.symm.trans hotherGet)
    exact hbreaks
  · intro hbreaks
    exact ⟨answer, lifetime, prompt, hreaches, hlasting, hget, hpending, hbreaks⟩

/-- A first answer that breaks off gets no pong. Assumes: it reaches the queue, its scope lasts, the
prompt is pending, and it breaks off. -/
theorem firstAnswer_of_breaksOff {answer : Verdict} {lifetime : RuleScope} {prompt : Prompt}
    (hreaches : Reaches inputs store verdict scope answer lifetime) (hlasting : lifetime ≠ .once)
    (hget : store.promptAt inputs.expireNow id = some prompt) (hpending : prompt.state = .pending)
    (hbreaks : BreaksOff toml inputs store (.promptAnswer id verdict scope)) :
    (store.handle toml inputs (.promptAnswer id verdict scope)).2 ≠ .pong := by
  rw [breaksOff_answer_iff hreaches hlasting hget hpending] at hbreaks
  obtain ⟨code, herror⟩ := @changeRules_of_broken toml
    (store.recorded inputs ⟨id, prompt.key, answer, lifetime, false⟩) _ _ hbreaks
  rw [handle, promptAnswer_of_lasting hreaches hlasting hget hpending, herror]
  intro hpong
  cases hpong

/-- A first answer that does not break off gets a pong and leaves its record and its rule, which is
on disk if it is permanent. Assumes: the library reads back what it prints, the answer reaches the
queue, its scope lasts, the prompt is pending, and it does not break off. -/
theorem firstAnswer_of_done (hreads : toml.ReadsBack) {answer : Verdict} {lifetime : RuleScope}
    {prompt : Prompt} (hreaches : Reaches inputs store verdict scope answer lifetime)
    (hlasting : lifetime ≠ .once) (hget : store.promptAt inputs.expireNow id = some prompt)
    (hpending : prompt.state = .pending)
    (hdone : ¬ BreaksOff toml inputs store (.promptAnswer id verdict scope)) :
    ∃ after saved, store.handle toml inputs (.promptAnswer id verdict scope) = (after, .pong) ∧
      after.prompts.value.prompts.get id = some (prompt.answeredWith answer lifetime) ∧
      store.Accepts (.answer ⟨id, prompt.key, answer, lifetime, false⟩) after.rules.value saved ∧
      (lifetime = .permanent → OnDisk toml after.directory prompt.key answer) := by
  rw [breaksOff_answer_iff hreaches hlasting hget hpending] at hdone
  obtain ⟨rules, saved, haccepts, hsaves, hchange⟩ := @changeRules_of_done toml
    (store.recorded inputs ⟨id, prompt.key, answer, lifetime, false⟩) _ _ hdone
  have hhandle : store.handle toml inputs (.promptAnswer id verdict scope) = _ :=
    promptAnswer_of_lasting hreaches hlasting hget hpending
  rw [hchange] at hhandle
  refine ⟨_, saved, hhandle, get_recorded hget answer lifetime, haccepts, fun hpermanent ↦ ?_⟩
  obtain rfl : saved = true := (of_accepts_answer haccepts).1.trans (decide_eq_true hpermanent)
  exact onDisk_of_saves hreads haccepts (hsaves rfl)

/-- What a first lasting answer has to meet. Assumes: the library reads back what it prints, the
answer reaches the queue, its scope lasts, and the prompt is pending. -/
theorem pongTakesEffect_of_pending (hreads : toml.ReadsBack) {answer : Verdict}
    {lifetime : RuleScope} {prompt : Prompt}
    (hreaches : Reaches inputs store verdict scope answer lifetime) (hlasting : lifetime ≠ .once)
    (hget : store.promptAt inputs.expireNow id = some prompt)
    (hpending : prompt.state = .pending) :
    PongTakesEffect toml inputs store id verdict scope ↔
      (¬ BreaksOff toml inputs store (.promptAnswer id verdict scope) →
        ¬ Overruled store.rules.value prompt.key answer) := by
  by_cases hbreaks : BreaksOff toml inputs store (.promptAnswer id verdict scope)
  · have hanswer := firstAnswer_of_breaksOff hreaches hlasting hget hpending hbreaks
    exact iff_of_true (fun _ hpong ↦ absurd hpong hanswer) (absurd hbreaks)
  · obtain ⟨after, saved, hhandle, hrecord, haccepts, hdisk⟩ :=
      firstAnswer_of_done hreads hreaches hlasting hget hpending hbreaks
    unfold PongTakesEffect
    rw [hhandle, tookEffect_iff hrecord, ← inForce_answer_iff haccepts]
    constructor
    · intro heffect _
      exact (heffect ((lasting_iff hreaches.scope).mpr hlasting) rfl).1
    · intro hforce _ _
      exact ⟨hforce hbreaks, hdisk⟩

/-- A pong to a lasting answer means that it took effect exactly when the state before it is one in
which the answer stands. Assumes: the library reads back what it prints. -/
theorem pong_takes_effect_iff (hreads : toml.ReadsBack) (inputs : PolicyInputs)
    (store : PolicyStore) (id : UInt64) (verdict scope : String) :
    PongTakesEffect toml inputs store id verdict scope ↔
      AnswerStands toml inputs store id verdict scope := by
  constructor
  · intro heffect answer lifetime prompt hreaches hlasting hget
    refine ⟨fun hpending ↦ ?_, fun hanswered ↦ ?_⟩
    · exact (pongTakesEffect_of_pending hreads hreaches hlasting hget hpending).mp heffect
    · have hhandle : store.handle toml inputs (.promptAnswer id verdict scope) = _ :=
        promptAnswer_of_answered hreaches hget hanswered
      unfold PongTakesEffect at heffect
      rw [hhandle] at heffect
      exact heffect ((lasting_iff hreaches.scope).mpr hlasting) rfl
  · intro hstands hlast hpong
    rcases promptAnswer_cases toml inputs id verdict scope store with
      ⟨_, hrefused⟩ | ⟨_, hrefused⟩ | ⟨answer, lifetime, prompt, hreaches, hget, hcases⟩
    · rw [handle, hrefused] at hpong
      cases hpong
    · rw [handle, hrefused] at hpong
      cases hpong
    · have hlasting := (lasting_iff hreaches.scope).mp hlast
      obtain ⟨hfirst, hrepeated⟩ := hstands answer lifetime prompt hreaches hlasting hget
      rcases hcases with ⟨hanswered, hhandle⟩ | ⟨_, honce, _⟩ | ⟨hpending, _⟩
      · rw [handle, hhandle]
        exact hrepeated hanswered
      · exact absurd honce hlasting
      · exact (pongTakesEffect_of_pending hreads hreaches hlasting hget hpending).mpr
          (hfirst hpending) hlast hpong

/-- The prompt key of curl's connection. -/
def curlKey : PromptKey := ⟨"/usr/bin/curl", Octets.fromNeBytes ⟨203, 0, 113, 42⟩, 443⟩

/-- A daemon that has just asked about curl's connection. -/
def asked : PolicyStore :=
  { fresh with prompts := Mutex.new (PromptQueue.withDefaults.enqueue 0 0 curlKey).1 }

/-- The permanent answer about curl, which cannot be saved. -/
def unsavedAnswer : PolicyStore × Response :=
  asked.handle curlToml (.at 1 (.createDirFailed "Not a directory"))
    (.promptAnswer 1 "allow" "permanent")

/-- The answer is answered with persistence_failed; a retry is answered with a pong, and there is
still no document. -/
theorem retry_of_unsaved_answer :
    unsavedAnswer.2 = .error "persistence_failed" ∧
      (unsavedAnswer.1.handle curlToml (.at 2 .done) (.promptAnswer 1 "allow" "permanent")).2 =
        .pong ∧
      (unsavedAnswer.1.handle curlToml (.at 2 .done)
        (.promptAnswer 1 "allow" "permanent")).1.directory.document = none ∧
      ¬ PongTakesEffect curlToml (.at 2 .done) unsavedAnswer.1 1 "allow" "permanent" := by
  have hpong : (unsavedAnswer.1.handle curlToml (.at 2 .done)
      (.promptAnswer 1 "allow" "permanent")).2 = .pong := by decide
  have hdocument : (unsavedAnswer.1.handle curlToml (.at 2 .done)
      (.promptAnswer 1 "allow" "permanent")).1.directory.document = none := by decide
  refine ⟨by decide, hpong, hdocument, fun heffect ↦ ?_⟩
  have hget : (unsavedAnswer.1.handle curlToml (.at 2 .done)
      (.promptAnswer 1 "allow" "permanent")).1.prompts.value.prompts.get 1 =
      some ((PromptQueue.withDefaults.newPrompt 0 curlKey).answeredWith .allow .permanent) := by
    decide
  obtain ⟨_, hdisk⟩ := heffect (.inr rfl) hpong _ .allow hget rfl
  obtain ⟨text, _, htext, _⟩ := hdisk rfl
  rw [hdocument] at htext
  cases htext

end PolicyStore

end InterFire
