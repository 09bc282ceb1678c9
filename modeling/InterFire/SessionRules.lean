import InterFire.LastingAnswers
import InterFire.Library.Run

/-!
# Session rules and the document

A rule of a session answer should not outlive the daemon: every document that a save writes should
hold permanent rules only. `Submits` is the set that a request hands to `RulesStore.save`, `Writes`
the document that it thereby puts in place, and `directory_handle` says that nothing else touches
the directory. A request submits the whole set in memory, so `only_permanent_written_iff` is the
answer: along a run every document that is written is permanent exactly when every request that
writes one finds only permanent rules in memory, but for the rule that it deletes.
-/

set_option autoImplicit false
set_option relaxedAutoImplicit false

namespace InterFire

/-- The save gets as far as renaming the temporary file over the document. -/
def RulesStore.Replaces (toml : Toml) (outcome : SaveOutcome) (rules : RuleSet)
    (directory : RulesDirectory) : Prop :=
  (∃ data, toml.toStringPretty (documentOf rules) = .ok data) ∧ directory.temporary = none ∧
    (outcome = .done ∨ ∃ error, outcome = .created (.permissionsFailed error))

/-- A save puts the printed rules in place or leaves the document alone, as it gets to the rename or
not. -/
theorem RulesStore.document_save (toml : Toml) (outcome : SaveOutcome) (rules : RuleSet)
    (directory : RulesDirectory) :
    (Replaces toml outcome rules directory ∧
      ∃ data, toml.toStringPretty (documentOf rules) = .ok data ∧
        (save toml outcome rules directory).1.document = some data) ∨
    (¬ Replaces toml outcome rules directory ∧
      (save toml outcome rules directory).1.document = directory.document) := by
  unfold Replaces save
  cases hprint : toml.toStringPretty (documentOf rules) with
  | error error => exact .inr (by simp)
  | ok data =>
    cases outcome with
    | created replace =>
      cases htemporary : directory.temporary with
      | some leftover => exact .inr (by simp)
      | none =>
        cases replace with
        | writeFailed error written => exact .inr (by simp [replaceDocument, SaveOutcome.done])
        | renameFailed error => exact .inr (by simp [replaceDocument, SaveOutcome.done])
        | permissionsFailed error => exact .inl (by simp [replaceDocument])
        | done => exact .inl (by simp [replaceDocument, SaveOutcome.done])
    | _ => exact .inr (by simp [SaveOutcome.done])

namespace PolicyStore

/-- The request hands the set to the store to be saved. -/
def Submits (inputs : PolicyInputs) (store : PolicyStore) (rules : RuleSet) : PolicyRequest → Prop
  | .ruleAdd id executable verdict port =>
    inputs.peerMayMutate = true ∧ store.Accepts (.add id executable verdict port) rules true
  | .ruleDelete id => inputs.peerMayMutate = true ∧ store.Accepts (.delete id) rules true
  | .promptAnswer id verdict scope =>
    ∃ answer lifetime prompt, Reaches inputs store verdict scope answer lifetime ∧
      lifetime ≠ .once ∧ store.promptAt inputs.expireNow id = some prompt ∧
      prompt.state = .pending ∧
      store.Accepts (.answer ⟨id, prompt.key, answer, lifetime, false⟩) rules true

/-- The request puts a document in place. -/
def Writes (toml : Toml) (inputs : PolicyInputs) (store : PolicyStore) (request : PolicyRequest)
    (document : RulesDocument) : Prop :=
  ∃ rules, store.Submits inputs rules request ∧
    RulesStore.Replaces toml inputs.save rules store.directory ∧
    document = RulesStore.documentOf rules

/-- Every rule in memory is permanent or the one that the request deletes. -/
def FindsOnlyPermanent (store : PolicyStore) (request : PolicyRequest) : Prop :=
  ∀ rule ∈ store.rules.value.rules, rule.scope = .permanent ∨ request = .ruleDelete rule.id

/-! ### What a request does to the directory -/

/-- A request saves the set it submits, or leaves the directory alone. -/
theorem directory_handle (toml : Toml) (inputs : PolicyInputs) (store : PolicyStore)
    (request : PolicyRequest) :
    (∃ rules, store.Submits inputs rules request ∧
      (store.handle toml inputs request).1.directory =
        (RulesStore.save toml inputs.save rules store.directory).1) ∨
    (store.handle toml inputs request).1.directory = store.directory := by
  rcases handle_cases toml inputs store request with
    ⟨_, hsame⟩ | ⟨change, rules, saved, hmakes, haccepts, _, hdirectory⟩
  · exact .inr hsame
  · cases saved with
    | false => exact .inr hdirectory
    | true =>
      refine .inl ⟨rules, ?_, hdirectory⟩
      cases request with
      | ruleAdd id executable verdict port =>
        obtain ⟨hpeer, rfl⟩ := hmakes
        exact ⟨hpeer, haccepts⟩
      | ruleDelete id =>
        obtain ⟨hpeer, rfl⟩ := hmakes
        exact ⟨hpeer, haccepts⟩
      | promptAnswer id verdict scope =>
        obtain ⟨answer, lifetime, prompt, hreaches, hlasting, hget, hpending, rfl⟩ := hmakes
        exact ⟨answer, lifetime, prompt, hreaches, hlasting, hget, hpending, haccepts⟩

/-- After a request the document is one that the request wrote, or the earlier one. -/
theorem document_handle (toml : Toml) (inputs : PolicyInputs) (store : PolicyStore)
    (request : PolicyRequest) :
    (∃ document data, store.Writes toml inputs request document ∧
      toml.toStringPretty document = .ok data ∧
      (store.handle toml inputs request).1.directory.document = some data) ∨
    (store.handle toml inputs request).1.directory.document = store.directory.document := by
  rcases directory_handle toml inputs store request with ⟨rules, hsubmits, hsave⟩ | hsame
  · rw [hsave]
    rcases RulesStore.document_save toml inputs.save rules store.directory with
      ⟨hreplaces, data, hprint, hdata⟩ | ⟨_, hkept⟩
    · exact .inl ⟨_, data, ⟨rules, hsubmits, hreplaces, rfl⟩, hprint, hdata⟩
    · exact .inr hkept
  · exact .inr (by rw [hsame])

/-! ### What is submitted -/

/-- A set with one more permanent rule is permanent exactly when the set was. Assumes: the rule is
permanent. -/
theorem onlyPermanent_append_iff {set : RuleSet} {rule : Rule} (hscope : rule.scope = .permanent)
    {request : PolicyRequest} (hrequest : ∀ id, request ≠ .ruleDelete id) :
    (∀ kept ∈ set.rules ++ [rule], kept.scope = .permanent) ↔
      ∀ kept ∈ set.rules, kept.scope = .permanent ∨ request = .ruleDelete kept.id := by
  constructor
  · intro hall kept hkept
    exact .inl (hall kept (List.mem_append_left _ hkept))
  · intro hall kept hkept
    rcases List.mem_append.mp hkept with hbefore | hnew
    · rcases hall kept hbefore with hpermanent | hdelete
      · exact hpermanent
      · exact absurd hdelete (hrequest kept.id)
    · rw [List.mem_singleton.mp hnew]
      exact hscope

/-- A submitted set is permanent exactly when the request finds only permanent rules. Assumes: the
request submits the set. -/
theorem onlyPermanent_submitted_iff {inputs : PolicyInputs} {store : PolicyStore} {rules : RuleSet}
    {request : PolicyRequest} (hsubmits : store.Submits inputs rules request) :
    (∀ rule ∈ rules.rules, rule.scope = .permanent) ↔ store.FindsOnlyPermanent request := by
  cases request with
  | ruleAdd id executable verdict port =>
    rcases (RulesChange.apply_cases hsubmits.2.2).2 with ⟨_, hdelete, _⟩ | ⟨rule, hrule, hinsert⟩
    · cases hdelete
    · obtain ⟨named, _, rfl⟩ := Option.map_eq_some_iff.mp hrule
      obtain ⟨rfl, _, _⟩ := RuleSet.of_insert_ok hinsert
      exact onlyPermanent_append_iff rfl nofun
  | ruleDelete id =>
    rcases (RulesChange.apply_cases hsubmits.2.2).2 with ⟨other, hdelete, hremove⟩ |
      ⟨rule, hrule, _⟩
    · obtain rfl := RulesChange.delete.inj hdelete
      obtain ⟨rfl, _⟩ := Prod.mk.inj hremove
      simp only [FindsOnlyPermanent, List.mem_filter, decide_eq_true_eq,
        PolicyRequest.ruleDelete.injEq]
      refine forall_congr' fun rule ↦ ⟨fun hall hrule ↦ ?_, ?_⟩
      · by_cases hid : rule.id = id
        · exact .inr hid.symm
        · exact .inl (hall ⟨hrule, hid⟩)
      · rintro hall ⟨hrule, hid⟩
        rcases hall hrule with hpermanent | hdelete
        · exact hpermanent
        · exact absurd hdelete.symm hid
    · cases hrule
  | promptAnswer id verdict scope =>
    obtain ⟨answer, lifetime, prompt, _, _, _, _, haccepts⟩ := hsubmits
    obtain ⟨hsaved, rfl, _⟩ := of_accepts_answer haccepts
    have hpermanent : lifetime = .permanent := by simpa using hsaved
    refine onlyPermanent_append_iff ?_ nofun
    rw [RuleSet.answeredRule, hpermanent]
    rfl

/-! ### Runs -/

/-- Every document that a run writes is permanent. -/
def WritesOnlyPermanent (toml : Toml) (store : PolicyStore) (ops : List PolicyStep) : Prop :=
  ∀ index inputs request document, ops[index]? = some (.request inputs request) →
    (Run.stateAt (step toml) store ops index).Writes toml inputs request document →
    ∀ rule ∈ document.rules, rule.scope = .permanent

/-- A start after any part of a run finds the document of the start, or loads permanent rules
only. -/
def RestartsPermanent (toml : Toml) (store : PolicyStore) (ops : List PolicyStep) : Prop :=
  ∀ index,
    (Run.stateAt (step toml) store ops index).directory.document = store.directory.document ∨
    ∀ loaded, RulesStore.loadable toml (Run.stateAt (step toml) store ops index).directory =
      .ok loaded → ∀ rule ∈ loaded.rules, rule.scope = .permanent

/-- A text that the library reads as a permanent document loads permanent rules. Assumes: it reads
it so, the document is permanent, and the load succeeds. -/
theorem onlyPermanent_of_load {toml : Toml} {text : String} {document : RulesDocument}
    {loaded : RuleSet} (hread : toml.fromStr text = .ok document)
    (hpermanent : ∀ rule ∈ document.rules, rule.scope = .permanent)
    (hload : RulesStore.load toml (some (.ok text)) = .ok loaded) :
    ∀ rule ∈ loaded.rules, rule.scope = .permanent := by
  obtain ⟨other, found, hother, hfound, _, hinsert⟩ := RulesStore.document_of_load hload
  obtain rfl := Except.ok.inj hother
  obtain rfl := Except.ok.inj (hread.symm.trans hfound)
  obtain ⟨rfl, _⟩ := RuleSet.of_insertAll_ok RuleSet.valid_default hinsert
  exact hpermanent

/-- A run that writes only permanent documents restarts with permanent rules. Assumes: the library
reads back what it prints, and the run writes only permanent documents. -/
theorem restartsPermanent_of_writes {toml : Toml} (hreads : toml.ReadsBack) {store : PolicyStore}
    {ops : List PolicyStep} (hwrites : WritesOnlyPermanent toml store ops) :
    RestartsPermanent toml store ops := by
  intro index
  refine Run.stateAt_induction (step toml) store ops
    (fun state ↦ state.directory.document = store.directory.document ∨
      ∀ loaded, RulesStore.loadable toml state.directory = .ok loaded →
        ∀ rule ∈ loaded.rules, rule.scope = .permanent)
    (.inl rfl) (fun position _ _ op hop hbefore ↦ ?_) index (Nat.zero_le index) le_rfl
  cases op with
  | enqueue expireNow createNow key =>
    simp only [step]
    split
    · exact hbefore
    · exact hbefore
  | request inputs request =>
    rcases document_handle toml inputs (Run.stateAt (step toml) store ops position) request with
      ⟨document, data, hwritten, hprint, hdata⟩ | hsame
    · refine .inr fun loaded hload ↦ ?_
      have hpermanent := hwrites position inputs request document hop hwritten
      rw [RulesStore.loadable, step, hdata] at hload
      exact onlyPermanent_of_load (hreads _ _ hprint) hpermanent hload
    · simpa only [step, RulesStore.loadable, hsame] using hbefore

/-- Along a run every document that is written holds only permanent rules, and so does what a
restart loads from it, exactly when every request that writes a document finds only permanent rules
in memory, but for the rule that it deletes. Assumes: the library reads back what it prints. -/
theorem only_permanent_written_iff {toml : Toml} (hreads : toml.ReadsBack) (store : PolicyStore)
    (ops : List PolicyStep) :
    (WritesOnlyPermanent toml store ops ∧ RestartsPermanent toml store ops) ↔
      ∀ index inputs request, ops[index]? = some (.request inputs request) →
        (∃ document,
          (Run.stateAt (step toml) store ops index).Writes toml inputs request document) →
        (Run.stateAt (step toml) store ops index).FindsOnlyPermanent request := by
  constructor
  · rintro ⟨hwrites, _⟩ index inputs request hop ⟨document, hdocument⟩
    have hpermanent := hwrites index inputs request document hop hdocument
    obtain ⟨rules, hsubmits, _, rfl⟩ := hdocument
    exact (onlyPermanent_submitted_iff hsubmits).mp hpermanent
  · intro hfinds
    have hwrites : WritesOnlyPermanent toml store ops := by
      intro index inputs request document hop hdocument
      have hpermanent := hfinds index inputs request hop ⟨document, hdocument⟩
      obtain ⟨rules, hsubmits, _, rfl⟩ := hdocument
      exact (onlyPermanent_submitted_iff hsubmits).mpr hpermanent
    exact ⟨hwrites, restartsPermanent_of_writes hreads hwrites⟩

/-! ### A session answer and an unrelated rule -/

/-- The rule of the session answer about curl. -/
def sessionRule : Rule := { curlRule with scope := .session }

/-- The rule that allows wget the TCP port 443. -/
def wgetRule : Rule := Rule.forPort 2 "/usr/bin/wget" 443 .allow .permanent

/-- The text of the document with the two rules. -/
def sessionText : String :=
  "schema_version = 1\n\n[[rules]]\nid = 1\nexecutable = \"/usr/bin/curl\"\nprotocol = \"tcp\"\n" ++
    "direction = \"outbound\"\nport = 443\nverdict = \"allow\"\nscope = \"session\"\n\n" ++
    "[[rules]]\nid = 2\nexecutable = \"/usr/bin/wget\"\nprotocol = \"tcp\"\n" ++
    "direction = \"outbound\"\nport = 443\nverdict = \"allow\"\nscope = \"permanent\"\n"

/-- The library at the document with the two rules. -/
def sessionToml : Toml :=
  Toml.ofTable [(RulesStore.documentOf ⟨[sessionRule, wgetRule]⟩, sessionText)]

/-- Curl is allowed for the session, then a rule for wget is added. -/
def sessionRun : List PolicyStep :=
  [.request (.at 1 .done) (.promptAnswer 1 "allow" "session"),
    .request (.at 2 .done) (.ruleAdd 2 "/usr/bin/wget" "allow" 443)]

/-- Adding the rule for wget writes the session rule too, and a restart loads it. -/
theorem session_rule_written :
    sessionToml.ReadsBack ∧
      (Run.stateAt (step sessionToml) asked sessionRun 1).Writes sessionToml (.at 2 .done)
        (.ruleAdd 2 "/usr/bin/wget" "allow" 443)
        (RulesStore.documentOf ⟨[sessionRule, wgetRule]⟩) ∧
      RulesStore.loadable sessionToml
          (Run.stateAt (step sessionToml) asked sessionRun 2).directory =
        .ok ⟨[sessionRule, wgetRule]⟩ ∧
      ¬ WritesOnlyPermanent sessionToml asked sessionRun ∧
      ¬ RestartsPermanent sessionToml asked sessionRun := by
  have hwrites : (Run.stateAt (step sessionToml) asked sessionRun 1).Writes sessionToml
      (.at 2 .done) (.ruleAdd 2 "/usr/bin/wget" "allow" 443)
      (RulesStore.documentOf ⟨[sessionRule, wgetRule]⟩) :=
    ⟨⟨[sessionRule, wgetRule]⟩, ⟨rfl, by decide, by decide⟩,
      ⟨⟨sessionText, by decide +kernel⟩, by decide +kernel, .inl rfl⟩, rfl⟩
  have hload : RulesStore.loadable sessionToml
      (Run.stateAt (step sessionToml) asked sessionRun 2).directory =
        .ok ⟨[sessionRule, wgetRule]⟩ := by decide +kernel
  refine ⟨Toml.readsBack_ofTable (List.nodup_singleton _), hwrites, hload, fun honly ↦ ?_,
    fun hrestarts ↦ ?_⟩
  · have hsession := honly 1 _ _ _ rfl hwrites sessionRule List.mem_cons_self
    cases hsession
  · rcases hrestarts 2 with hsame | hpermanent
    · exact absurd hsame (by decide)
    · have hsession := hpermanent _ hload sessionRule List.mem_cons_self
      cases hsession

/-- A run that adds the rule for curl to an empty daemon writes only permanent rules. -/
theorem only_permanent_written_curl :
    WritesOnlyPermanent curlToml fresh
        [.request (.at 0 .done) (.ruleAdd 1 "/usr/bin/curl" "allow" 443)] ∧
      RestartsPermanent curlToml fresh
        [.request (.at 0 .done) (.ruleAdd 1 "/usr/bin/curl" "allow" 443)] := by
  refine (only_permanent_written_iff curlToml_readsBack _ _).mpr ?_
  intro index inputs request hop _ rule hrule
  obtain ⟨hindex, _⟩ := List.getElem?_eq_some_iff.mp hop
  obtain rfl : index = 0 := by simpa using hindex
  cases hrule

end PolicyStore

end InterFire
