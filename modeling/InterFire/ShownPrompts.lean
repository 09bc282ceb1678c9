import InterFire.Library.Run
import InterFire.PromptSystem

/-!
# The prompt that was shown and the prompt that is answered

A daemon keeps the key of a prompt for as long as it runs, so an answer that reaches the daemon that
listed its rows is about them (`answered_as_shown_of_run`). A daemon that is started again gives the
same ids to other prompts, and the answer to a row that it has never listed is taken for one of them
(`answer_after_restart`).
-/

set_option autoImplicit false
set_option relaxedAutoImplicit false

namespace InterFire

/-- The row is about the key. -/
def PromptRow.Shows (row : PromptRow) (key : PromptKey) : Prop :=
  row.executable = key.executable ∧ row.destination = key.ipv4Display ∧ row.port = key.port

namespace PromptSystem

/-- An answer that is accepted as the first one to its prompt is about the prompt that was shown
when its verdict was chosen and when its scope was chosen. -/
def AnsweredAsShown (system : PromptSystem) : PromptStep → Prop
  | .deliver index inputs => ∀ answer store answered, system.submissions[index]? = some answer →
      system.daemon = some store →
      store.Records inputs answer.id answer.verdict answer.scope answered →
      answer.verdictShown.row.Shows answered.key ∧ answer.scopeShown.row.Shows answered.key
  | _ => True

/-- What a step must meet: a new prompt gets an id that no prompt has yet, the executables of a list
are plain, and an answer reaches the daemon that listed the rows it was chosen for. -/
def Meets (system : PromptSystem) : PromptStep → Prop
  | .enqueue _ _ _ => ∀ store, system.daemon = some store →
      store.prompts.value.prompts.get store.prompts.value.nextId = none
  | .list expireNow _ => ∀ store, system.daemon = some store →
      ∀ prompt ∈ (store.prompts.value.listPending expireNow).2, Plain prompt.key.executable.toList
  | .deliver index _ => ∀ answer, system.submissions[index]? = some answer →
      answer.verdictShown.incarnation = system.incarnation ∧
        answer.scopeShown.incarnation = system.incarnation
  | _ => True

end PromptSystem

/-! ### The invariant -/

namespace PromptSystem

/-- The row is somewhere in the system. -/
def Has (system : PromptSystem) (shown : Shown) : Prop :=
  (∃ frame ∈ system.frames, frame.Has shown) ∨ (∃ answer ∈ system.submissions, answer.Has shown) ∨
    (∃ client, (system.terminals client).Has shown) ∨
    ∃ client, (system.desktops client).Has shown

/-- The row comes from an earlier daemon, or this one has a prompt under its id that it is about. -/
def Backs (system : PromptSystem) (shown : Shown) : Prop :=
  shown.incarnation < system.incarnation ∨
    (shown.incarnation = system.incarnation ∧ ∃ store prompt, system.daemon = some store ∧
      store.prompts.value.prompts.get shown.row.id = some prompt ∧ shown.row.Shows prompt.key)

/-- Every row is backed, and answers and scopes carry the ids of the rows they were chosen for. -/
structure Sound (system : PromptSystem) : Prop where
  keyed : ∀ store, system.daemon = some store → store.prompts.value.Keyed
  backs : ∀ shown, system.Has shown → system.Backs shown
  answers : ∀ answer ∈ system.submissions, answer.Aligned
  windows : ∀ client, (system.desktops client).Aligned

section Steps

variable {system : PromptSystem}

theorem sound_initial (toml : Toml) (directory : RulesDirectory) :
    Sound (initial toml directory) := by
  refine ⟨fun store hstore ↦ PolicyStore.keyed_start hstore, fun shown hhas ↦ ?_,
    fun answer hanswer ↦ ?_, fun client alert halert ↦ ?_⟩
  · rcases hhas with ⟨frame, hframe, _⟩ | ⟨answer, hanswer, _⟩ | ⟨client, hterminal⟩ |
      ⟨client, alert, halert, _⟩
    · cases hframe
    · cases hanswer
    · rcases hterminal with ⟨hmem, _⟩ | ⟨form, hform, _⟩
      · cases hmem
      · cases hform
    · cases halert
  · cases hanswer
  · cases halert

/-- What the daemon does keeps rows backed. Assumes: it takes no prompt away. -/
theorem backs_onDaemon {change : PolicyStore → PolicyStore} {shown : Shown}
    (hextends : ∀ store, system.daemon = some store →
      store.prompts.value.Extends (change store).prompts.value)
    (hbacks : system.Backs shown) : (system.onDaemon change).Backs shown := by
  rcases hbacks with hearlier | ⟨hsame, store, prompt, hstore, hget, hshows⟩
  · exact .inl hearlier
  · obtain ⟨later, hlater, hkey⟩ := (hextends store hstore).keys _ prompt hget
    refine .inr ⟨hsame, change store, later, ?_, hlater, ?_⟩
    · rw [onDaemon, hstore]
      rfl
    · rw [hkey]
      exact hshows

/-- What the daemon does keeps the system sound. Assumes: it takes no prompt away. -/
theorem Sound.onDaemon (hsound : system.Sound) {change : PolicyStore → PolicyStore}
    (hextends : ∀ store, system.daemon = some store →
      store.prompts.value.Extends (change store).prompts.value) :
    (system.onDaemon change).Sound := by
  refine ⟨fun after hafter ↦ ?_, fun shown hhas ↦ backs_onDaemon hextends (hsound.backs shown hhas),
    hsound.answers, hsound.windows⟩
  obtain ⟨store, hstore, rfl⟩ := Option.map_eq_some_iff.mp hafter
  exact (hextends store hstore).keyed (hsound.keyed store hstore)

/-- An answer, if there is one, is for rows that are in the system. -/
def Sends (system : PromptSystem) (answer : Option Submission) : Prop :=
  ∀ sent, answer = some sent → sent.Aligned ∧ ∀ shown, sent.Has shown → system.Has shown

theorem sends_none (system : PromptSystem) : system.Sends none := by
  intro sent hsent
  cases hsent

theorem Sends.has {answer : Option Submission} (hsends : system.Sends answer) {sent : Submission}
    {shown : Shown} (hsent : sent ∈ system.submissions ++ answer.toList) (hshown : sent.Has shown) :
    system.Has shown := by
  rcases List.mem_append.mp hsent with hearlier | hnew
  · exact .inr (.inl ⟨sent, hearlier, hshown⟩)
  · exact (hsends sent (Option.mem_toList.mp hnew)).2 shown hshown

theorem Sends.aligned {answer : Option Submission} (hsends : system.Sends answer)
    (hsound : system.Sound) : ∀ sent ∈ system.submissions ++ answer.toList, sent.Aligned := by
  intro sent hsent
  rcases List.mem_append.mp hsent with hearlier | hnew
  · exact hsound.answers sent hearlier
  · exact (hsends sent (Option.mem_toList.mp hnew)).1

theorem terminals_onTerminal (system : PromptSystem) (client other : ℕ) (terminal : Terminal)
    (answer : Option Submission) : (system.onTerminal client terminal answer).terminals other =
      if other = client then terminal else system.terminals other :=
  Function.update_apply _ _ _ _

theorem desktops_onDesktop (system : PromptSystem) (client other : ℕ) (window : AlertWindow)
    (answer : Option Submission) : (system.onDesktop client window answer).desktops other =
      if other = client then window else system.desktops other :=
  Function.update_apply _ _ _ _

/-- A change at a terminal keeps the system sound. Assumes: it shows no new row, and an answer that
it sends is for rows that were there. -/
theorem Sound.onTerminal (hsound : system.Sound) {client : ℕ} {terminal : Terminal}
    {answer : Option Submission} (hterminal : ∀ shown, terminal.Has shown → system.Has shown)
    (hsends : system.Sends answer) : (system.onTerminal client terminal answer).Sound := by
  refine ⟨hsound.keyed, fun shown hhas ↦ hsound.backs shown ?_, hsends.aligned hsound,
    hsound.windows⟩
  rcases hhas with hframe | ⟨sent, hsent, hshown⟩ | ⟨other, hother⟩ | hdesktop
  · exact .inl hframe
  · exact hsends.has hsent hshown
  · rw [terminals_onTerminal] at hother
    split_ifs at hother
    · exact hterminal shown hother
    · exact .inr (.inr (.inl ⟨other, hother⟩))
  · exact .inr (.inr (.inr hdesktop))

/-- A change at a desktop keeps the system sound. Assumes: it shows no new row, the scope belongs to
the alert, and an answer that it sends is for rows that were there. -/
theorem Sound.onDesktop (hsound : system.Sound) {client : ℕ} {window : AlertWindow}
    {answer : Option Submission} (hwindow : ∀ shown, window.Has shown → system.Has shown)
    (haligned : window.Aligned) (hsends : system.Sends answer) :
    (system.onDesktop client window answer).Sound := by
  refine ⟨hsound.keyed, fun shown hhas ↦ hsound.backs shown ?_, hsends.aligned hsound,
    fun other ↦ ?_⟩
  · rcases hhas with hframe | ⟨sent, hsent, hshown⟩ | hterminal | ⟨other, hother⟩
    · exact .inl hframe
    · exact hsends.has hsent hshown
    · exact .inr (.inr (.inl hterminal))
    · rw [desktops_onDesktop] at hother
      split_ifs at hother
      · exact hwindow shown hother
      · exact .inr (.inr (.inr ⟨other, hother⟩))
  · rw [desktops_onDesktop]
    split_ifs
    · exact haligned
    · exact hsound.windows other

/-- A row that a client reads in the list of this daemon is about the prompt of its id. Assumes: the
prompts are stored under their ids, the listed executables are plain, and the row is read. -/
theorem listed_of_promptList {store : PolicyStore} (hkeyed : store.prompts.value.Keyed)
    {expireNow now : Instant}
    (hplain : ∀ prompt ∈ (store.prompts.value.listPending expireNow).2,
      Plain prompt.key.executable.toList)
    {rows : List PromptRow}
    (hrows : readPrompts (store.promptList expireNow now).2.encode = some rows) {row : PromptRow}
    (hrow : row ∈ rows) :
    ∃ prompt, (store.promptList expireNow now).1.prompts.value.prompts.get row.id = some prompt ∧
      row.Shows prompt.key := by
  unfold PolicyStore.promptList at hrows ⊢
  cases hlock : store.prompts.lock with
  | none =>
    rw [hlock] at hrows
    have hmalformed : readPrompts (Response.error "lock_poisoned").encode = none := by
      decide
    cases hmalformed.symm.trans hrows
  | some prompts =>
    rw [Mutex.value_of_lock hlock] at hplain hkeyed
    rw [hlock] at hrows
    obtain rfl := readPrompts_encodePrompts hplain hrows
    obtain ⟨prompt, hprompt, rfl⟩ := List.mem_map.mp hrow
    obtain ⟨id, _, hpending⟩ := List.mem_filterMap.mp hprompt
    have hget : (prompts.expire expireNow).prompts.get id = some prompt :=
      (Option.filter_eq_some_iff.mp hpending).1
    obtain rfl := (prompts.extends_expire expireNow).keyed hkeyed id prompt hget
    exact ⟨prompt, hget, rfl, rfl, rfl⟩

/-- Sending the list keeps the system sound. Assumes: the listed executables are plain. -/
theorem Sound.sendList (hsound : system.Sound) {expireNow now : Instant}
    (hplain : ∀ store, system.daemon = some store →
      ∀ prompt ∈ (store.prompts.value.listPending expireNow).2,
        Plain prompt.key.executable.toList) :
    (system.sendList expireNow now).Sound := by
  unfold PromptSystem.sendList
  cases hstore : system.daemon with
  | none => exact hsound
  | some store =>
    have hkeyed := hsound.keyed store hstore
    have hextends := store.extends_promptList expireNow now
    refine ⟨fun after hafter ↦ ?_, fun shown hhas ↦ ?_, hsound.answers, hsound.windows⟩
    · obtain rfl := Option.some.inj hafter
      exact hextends.keyed hkeyed
    · -- A row of the new frame, or one that was there before the list was sent.
      have hcases : (PromptFrame.mk (store.promptList expireNow now).2.encode
          system.incarnation).Has shown ∨ system.Has shown := by
        rcases hhas with ⟨frame, hframe, hshown⟩ | hrest
        · rcases List.mem_append.mp hframe with hearlier | hnew
          · exact .inr (.inl ⟨frame, hearlier, hshown⟩)
          · obtain rfl := List.mem_singleton.mp hnew
            exact .inl hshown
        · exact .inr (.inr hrest)
      rcases hcases with ⟨rows, hrows, hrow, hincarnation⟩ | hbefore
      · obtain ⟨prompt, hget, hshows⟩ :=
          listed_of_promptList hkeyed (hplain store hstore) hrows hrow
        exact .inr ⟨hincarnation, _, prompt, rfl, hget, hshows⟩
      · rcases hsound.backs shown hbefore with hearlier | ⟨hsame, found, prompt, hfound, hget,
          hshows⟩
        · exact .inl hearlier
        · obtain rfl := Option.some.inj (hstore.symm.trans hfound)
          obtain ⟨later, hlater, hkey⟩ := hextends.keys _ prompt hget
          exact .inr ⟨hsame, _, later, rfl, hlater, hkey ▸ hshows⟩

/-- A daemon that is started again has listed no row yet. -/
theorem Sound.restart (hsound : system.Sound) (toml : Toml) (directory : RulesDirectory) :
    (system.step toml (.restart directory)).Sound := by
  refine ⟨fun store hstore ↦ PolicyStore.keyed_start hstore, fun shown hhas ↦ .inl ?_,
    hsound.answers, hsound.windows⟩
  have hbefore : shown.incarnation ≤ system.incarnation := by
    rcases hsound.backs shown hhas with hearlier | ⟨hsame, _⟩
    · exact hearlier.le
    · exact hsame.le
  exact Nat.lt_succ_of_le hbefore

/-- One step keeps the system sound. Assumes: the step meets its condition. -/
theorem Sound.step (hsound : system.Sound) (toml : Toml) {op : PromptStep}
    (hmeets : system.Meets op) : (system.step toml op).Sound := by
  have hterminal : ∀ client shown, (system.terminals client).Has shown → system.Has shown :=
    fun client shown hhas ↦ .inr (.inr (.inl ⟨client, hhas⟩))
  have hdesktop : ∀ client shown, (system.desktops client).Has shown → system.Has shown :=
    fun client shown hhas ↦ .inr (.inr (.inr ⟨client, hhas⟩))
  cases op with
  | enqueue expireNow createNow key =>
    exact hsound.onDaemon fun store hstore ↦
      PolicyStore.extends_step_enqueue (hmeets store hstore) toml expireNow createNow key
  | expire now => exact hsound.onDaemon fun store _ ↦ store.extends_expirePrompts now
  | request inputs request =>
    exact hsound.onDaemon fun store _ ↦ store.extends_step_request toml inputs request
  | list expireNow now => exact hsound.sendList hmeets
  | restart directory => exact hsound.restart toml directory
  | deliver index inputs =>
    unfold PromptSystem.step
    dsimp only
    split
    · exact hsound
    · exact hsound.onDaemon fun store _ ↦ store.extends_step_request toml inputs _
  | terminalPoll client index =>
    unfold PromptSystem.step
    dsimp only
    split
    · exact hsound
    · next frame hframe =>
      refine hsound.onTerminal (fun shown hhas ↦ ?_) (sends_none system)
      rcases Terminal.has_of_poll hhas with hread | hbefore
      · exact .inl ⟨frame, List.mem_of_getElem? hframe, hread⟩
      · exact hterminal client shown hbefore
  | terminalFail client message =>
    exact hsound.onTerminal (fun shown hhas ↦ hterminal client shown (Terminal.has_of_fail hhas))
      (sends_none system)
  | terminalKey client code =>
    refine hsound.onTerminal (fun shown hhas ↦ hterminal client shown (Terminal.has_of_key hhas))
      fun sent hsent ↦ ?_
    obtain ⟨form, hopen, hverdict, hscope, haligned⟩ := Terminal.form_of_submit hsent
    refine ⟨haligned, fun shown hshown ↦ hterminal client shown (.inr ⟨form, hopen, ?_⟩)⟩
    rw [Submission.Has, hverdict, hscope, or_self] at hshown
    exact hshown
  | desktopPoll client index =>
    refine hsound.onDesktop (fun shown hhas ↦ ?_)
      (AlertWindow.aligned_poll (hsound.windows client) _) (sends_none system)
    rcases AlertWindow.has_of_poll hhas with ⟨frame, hframe, hread⟩ | hbefore
    · obtain ⟨position, _, hposition⟩ := Option.bind_eq_some_iff.mp hframe
      exact .inl ⟨frame, List.mem_of_getElem? hposition, hread⟩
    · exact hdesktop client shown hbefore
  | desktopScope client scope =>
    exact hsound.onDesktop
      (fun shown hhas ↦ hdesktop client shown (AlertWindow.has_of_setScope hhas))
      ((system.desktops client).aligned_setScope scope) (sends_none system)
  | desktopDetails client =>
    have hsame := (system.desktops client).sameAlert_toggleDetails
    exact hsound.onDesktop (fun shown hhas ↦ hdesktop client shown (hsame.has hhas))
      (hsame.aligned (hsound.windows client)) (sends_none system)
  | desktopSubmit client verdict =>
    refine hsound.onDesktop (hdesktop client) (hsound.windows client) fun sent hsent ↦ ?_
    obtain ⟨alert, halert, hverdict, hscope, haligned⟩ :=
      AlertWindow.alert_of_submit (hsound.windows client) hsent
    refine ⟨haligned, fun shown hshown ↦ hdesktop client shown ⟨alert, halert, ?_⟩⟩
    rw [Submission.Has, hverdict, hscope] at hshown
    exact hshown
  | desktopReply client reply =>
    have hsame := (system.desktops client).sameAlert_submitted reply
    exact hsound.onDesktop (fun shown hhas ↦ hdesktop client shown (hsame.has hhas))
      (hsame.aligned (hsound.windows client)) (sends_none system)

/-- A row of this daemon is about the prompt that an answer with its id is recorded for. Assumes:
the row is backed and of this daemon, and the answer is recorded. -/
theorem shows_of_records {shown : Shown} (hbacks : system.Backs shown)
    (hincarnation : shown.incarnation = system.incarnation) {store : PolicyStore}
    (hstore : system.daemon = some store) {inputs : PolicyInputs} {verdict scope : String}
    {answered : Answered} (hrecords : store.Records inputs shown.row.id verdict scope answered) :
    shown.row.Shows answered.key := by
  obtain ⟨prompt, hprompt, hkey⟩ := PolicyStore.key_of_records hrecords
  rcases hbacks with hearlier | ⟨_, found, listed, hfound, hget, hshows⟩
  · omega
  · obtain rfl := Option.some.inj (hstore.symm.trans hfound)
    obtain rfl := Option.some.inj (hprompt.symm.trans hget)
    rw [← hkey]
    exact hshows

/-- In a sound system an answer is about what was shown. Assumes: the step meets its condition. -/
theorem Sound.answeredAsShown (hsound : system.Sound) {op : PromptStep}
    (hmeets : system.Meets op) : system.AnsweredAsShown op := by
  cases op with
  | deliver index inputs =>
    intro answer store answered hanswer hstore hrecords
    obtain ⟨hverdict, hscope⟩ := hmeets answer hanswer
    have hmem := List.mem_of_getElem? hanswer
    obtain ⟨hverdictId, hscopeId⟩ := hsound.answers answer hmem
    have hbacks : ∀ shown, answer.Has shown → system.Backs shown :=
      fun shown hshown ↦ hsound.backs shown (.inr (.inl ⟨answer, hmem, hshown⟩))
    refine ⟨?_, ?_⟩
    · rw [hverdictId] at hrecords
      exact shows_of_records (hbacks _ (.inl rfl)) hverdict hstore hrecords
    · rw [hscopeId] at hrecords
      exact shows_of_records (hbacks _ (.inr rfl)) hscope hstore hrecords
  | _ => trivial

end Steps

/-- In every run of the daemon and its clients, an answer that is accepted as the first one to its
prompt is about the prompt that was shown when its verdict and its scope were chosen. Assumes: every
step meets its condition, so that new prompts get ids that no prompt has, the listed executables are
plain, and each answer reaches the daemon that listed the rows it was chosen for. -/
theorem answered_as_shown_of_run (toml : Toml) (directory : RulesDirectory) (ops : List PromptStep)
    (hmeets : ∀ index op, ops[index]? = some op →
      (Run.stateAt (step toml) (initial toml directory) ops index).Meets op) :
    ∀ index op, ops[index]? = some op →
      (Run.stateAt (step toml) (initial toml directory) ops index).AnsweredAsShown op := by
  intro index op hop
  have hsound : (Run.stateAt (step toml) (initial toml directory) ops index).Sound :=
    Run.stateAt_invariant_of_steps (step toml) (initial toml directory) ops Sound
      (sound_initial toml directory) (fun _ _ hbefore hstep ↦ hbefore.step toml hstep)
      (fun position _ other hother ↦ hmeets position other hother) index le_rfl
  exact hsound.answeredAsShown (hmeets index op hop)

/-! ### Two runs -/

/-- A running daemon records an answer. Assumes: the peer may mutate, the words are a verdict and a
scope, and the queue of the daemon takes the answer as the first one. -/
theorem records_of_answer {system : PromptSystem} {inputs : PolicyInputs} {id : UInt64}
    {verdict scope : String} {answer : Verdict} {lifetime : RuleScope} {answered : Answered}
    (hpeer : inputs.peerMayMutate = true) (hverdict : answerVerdict verdict = some answer)
    (hscope : answerScope scope = some lifetime) (hfirst : answered.duplicate = false)
    (hanswer : (system.daemon.map fun store ↦ (store.prompts.poisoned,
      (store.prompts.value.answer inputs.expireNow inputs.insertNow id answer
        lifetime).2.toOption)) = some (false, some answered)) :
    ∃ store, system.daemon = some store ∧ store.Records inputs id verdict scope answered := by
  obtain ⟨store, hstore, hpair⟩ := Option.map_eq_some_iff.mp hanswer
  obtain ⟨hclean, hresult⟩ := Prod.mk.inj hpair
  refine ⟨store, hstore, answer, lifetime, ⟨hpeer, hverdict, hscope, hclean⟩, ?_, hfirst⟩
  cases hqueue : (store.prompts.value.answer inputs.expireNow inputs.insertNow id answer
      lifetime).2 with
  | error failure =>
    rw [hqueue] at hresult
    cases hresult
  | ok found =>
    rw [hqueue] at hresult
    rw [Option.some.inj hresult]

def askedFor (executable : String) : PromptKey :=
  ⟨executable, Octets.fromNeBytes ⟨203, 0, 113, 42⟩, 443⟩

/-- A prompt for curl is listed, shown on a desktop and allowed for the session. -/
def shownRun : List PromptStep :=
  [.enqueue 0 0 (askedFor "/usr/bin/curl"), .list 0 0, .desktopPoll 0 (some 0),
    .desktopScope 0 .session, .desktopSubmit 0 .allow, .deliver 0 (.at 1 .done)]

/-- The answer of the desktop is accepted, and is about curl. -/
theorem answered_as_shown_curl :
    (∀ index op, shownRun[index]? = some op →
      (Run.stateAt (step curlToml) (initial curlToml ⟨none, none⟩) shownRun index).Meets op) ∧
    (∃ store, (Run.stateAt (step curlToml) (initial curlToml ⟨none, none⟩) shownRun 5).daemon =
      some store ∧ store.Records (.at 1 .done) 1 "allow" "session"
        ⟨1, askedFor "/usr/bin/curl", .allow, .session, false⟩) ∧
    (Run.stateAt (step curlToml) (initial curlToml ⟨none, none⟩) shownRun 5).AnsweredAsShown
      (.deliver 0 (.at 1 .done)) := by
  have hmeets : ∀ index op, shownRun[index]? = some op →
      (Run.stateAt (step curlToml) (initial curlToml ⟨none, none⟩) shownRun index).Meets op := by
    intro index op hop
    match index with
    | 0 =>
      obtain rfl := Option.some.inj hop
      intro store hstore
      obtain rfl := Option.some.inj hstore
      rfl
    | 1 =>
      obtain rfl := Option.some.inj hop
      intro store hstore
      have hplain : ((Run.stateAt (step curlToml) (initial curlToml ⟨none, none⟩) shownRun
          1).daemon.map fun store ↦ decide (∀ prompt ∈ (store.prompts.value.listPending 0).2,
            Plain prompt.key.executable.toList)) = some true := by decide
      rw [hstore] at hplain
      exact of_decide_eq_true (Option.some.inj hplain)
    | 2 | 3 | 4 =>
      obtain rfl := Option.some.inj hop
      trivial
    | 5 =>
      obtain rfl := Option.some.inj hop
      intro answer hanswer
      have htags : ((Run.stateAt (step curlToml) (initial curlToml ⟨none, none⟩) shownRun
          5).submissions[0]?.map fun answer ↦ (answer.verdictShown.incarnation,
            answer.scopeShown.incarnation)) = some (0, 0) := by decide
      rw [hanswer] at htags
      exact Prod.mk.inj (Option.some.inj htags)
    | _ + 6 => cases hop
  refine ⟨hmeets, ?_, answered_as_shown_of_run curlToml ⟨none, none⟩ shownRun hmeets 5 _ rfl⟩
  exact records_of_answer rfl rfl rfl rfl (by decide)

/-- A form is opened for curl, the daemon is started again and asks about wget, and the form is sent
off. -/
def restartRun : List PromptStep :=
  [.enqueue 0 0 (askedFor "/usr/bin/curl"), .list 0 0, .terminalPoll 0 0,
    .terminalKey 0 (.char '4'), .terminalKey 0 .enter, .terminalKey 0 (.char 'a'),
    .restart ⟨none, none⟩, .enqueue 1 1 (askedFor "/usr/bin/wget"), .terminalKey 0 .enter,
    .deliver 0 (.at 2 .done)]

/-- The operator allowed curl, and the daemon takes it for wget. -/
theorem answer_after_restart :
    (∃ answer, (Run.stateAt (step curlToml) (initial curlToml ⟨none, none⟩) restartRun
        9).submissions[0]? = some answer ∧ answer.id = 1 ∧ answer.verdict = "allow" ∧
      answer.scope = "once" ∧ answer.verdictShown.row.executable = "/usr/bin/curl") ∧
    (∃ store, (Run.stateAt (step curlToml) (initial curlToml ⟨none, none⟩) restartRun 9).daemon =
      some store ∧ store.Records (.at 2 .done) 1 "allow" "once"
        ⟨1, askedFor "/usr/bin/wget", .allow, .once, false⟩) ∧
    ¬ (Run.stateAt (step curlToml) (initial curlToml ⟨none, none⟩) restartRun 9).AnsweredAsShown
      (.deliver 0 (.at 2 .done)) := by
  have hanswer : ∃ answer, (Run.stateAt (step curlToml) (initial curlToml ⟨none, none⟩) restartRun
      9).submissions[0]? = some answer ∧ answer.id = 1 ∧ answer.verdict = "allow" ∧
      answer.scope = "once" ∧ answer.verdictShown.row.executable = "/usr/bin/curl" :=
    ⟨_, rfl, by decide, by decide, by decide, by decide⟩
  have hrecords : ∃ store, (Run.stateAt (step curlToml) (initial curlToml ⟨none, none⟩) restartRun
      9).daemon = some store ∧ store.Records (.at 2 .done) 1 "allow" "once"
        ⟨1, askedFor "/usr/bin/wget", .allow, .once, false⟩ :=
    records_of_answer rfl rfl rfl rfl (by decide)
  refine ⟨hanswer, hrecords, fun hshown ↦ ?_⟩
  obtain ⟨answer, hsent, hid, hverdict, hscope, hcurl⟩ := hanswer
  obtain ⟨store, hstore, haccepted⟩ := hrecords
  have hsame := hshown answer store ⟨1, askedFor "/usr/bin/wget", .allow, .once, false⟩ hsent hstore
  rw [hid, hverdict, hscope] at hsame
  obtain ⟨⟨hwget, _⟩, _⟩ := hsame haccepted
  rw [hcurl] at hwget
  exact absurd hwget (by decide)

end PromptSystem

end InterFire
