import InterFire.EventSelection

/-!
# The rows that the terminal acts on

`crates/interfire-tui/src/app.rs` keeps one index for the lists of all its tabs. `inRange_run` says
that it is in range in every run; this module says what follows for everything that uses it.
`ActsOnRows` is about the keys and the detail pane: each acts on the row at the index, which exists,
or on nothing when there is no row. `WindowInRange` is about the rows of the log that are drawn.

`visibleAuditWindowChecked` computes the window with the checks of unsigned arithmetic, a difference
below zero or a sum beyond the machine word being no result; `visibleAuditWindowChecked_eq` says that
no check fails.
-/

set_option autoImplicit false
set_option relaxedAutoImplicit false

namespace InterFire

namespace Terminal

/-- The window is a stretch of the rows, as long as the viewport allows, that ends within them and
holds the selected row at the index that is given for it. -/
structure VisibleList.Shows (window : VisibleList) (rows : List String)
    (selected viewportRows : ℕ) : Prop where
  total : window.total = rows.length
  items : window.items = (rows.drop window.start).take window.items.length
  length : window.items.length = min rows.length (max viewportRows 1)
  within : window.start + window.items.length ≤ rows.length
  highlighted : window.items[window.relativeSelected]? = rows[selected]?
  shown : rows ≠ [] → window.relativeSelected < window.items.length ∧
    window.start + window.relativeSelected = selected

/-- The form for traffic does not delete a rule. -/
theorem TrafficForm.toCommand_ne_deleteRule (form : TrafficForm) (id : UInt64) :
    form.toCommand ≠ .ok (.deleteRule id) := by
  unfold TrafficForm.toCommand
  split_ifs
  · exact nofun
  · cases form.action <;> exact nofun

namespace App

variable {app : App}

/-! ### The window of the log -/

/-- The first row of the log that is drawn. -/
def windowStart (app : App) (viewportRows : ℕ) : ℕ :=
  if app.filteredAudit.length ≤ max viewportRows 1 then 0
  else min (min app.listSelected (app.filteredAudit.length - 1) - max viewportRows 1 / 2)
    (app.filteredAudit.length - max viewportRows 1)

theorem windowStart_le_selected (app : App) (viewportRows : ℕ) :
    app.windowStart viewportRows ≤ min app.listSelected (app.filteredAudit.length - 1) := by
  unfold windowStart
  split_ifs
  · exact Nat.zero_le _
  · omega

/-- The window ends within the log. -/
theorem windowStart_add_le (app : App) (viewportRows : ℕ) :
    app.windowStart viewportRows + min app.filteredAudit.length (max viewportRows 1) ≤
      app.filteredAudit.length := by
  unfold windowStart
  split_ifs
  · omega
  · omega

/-- The window reaches beyond the selected row. Assumes: there is a row. -/
theorem selected_lt_windowStart_add (hshown : app.filteredAudit ≠ []) (viewportRows : ℕ) :
    min app.listSelected (app.filteredAudit.length - 1) <
      app.windowStart viewportRows + min app.filteredAudit.length (max viewportRows 1) := by
  have hpos := List.length_pos_iff.mpr hshown
  unfold windowStart
  split_ifs
  · omega
  · omega

/-- The window of a log that shows rows. -/
theorem visibleAuditWindow_of_ne_nil (hshown : app.filteredAudit ≠ []) (viewportRows : ℕ) :
    app.visibleAuditWindow viewportRows =
      { relativeSelected := min app.listSelected (app.filteredAudit.length - 1) -
          app.windowStart viewportRows
        items := (app.filteredAudit.drop (app.windowStart viewportRows)).take
          (min app.filteredAudit.length (max viewportRows 1))
        start := app.windowStart viewportRows
        total := app.filteredAudit.length } := by
  have hend := app.windowStart_add_le viewportRows
  have hlength : min (app.windowStart viewportRows + max viewportRows 1) app.filteredAudit.length -
      app.windowStart viewportRows = min app.filteredAudit.length (max viewportRows 1) := by omega
  rw [← hlength, visibleAuditWindow, if_neg (mt List.length_eq_zero_iff.mp hshown)]
  rfl

/-- `first - second` of unsigned numbers. -/
def checkedSub (first second : ℕ) : Option ℕ :=
  if second ≤ first then some (first - second) else none

/-- `first + second` of words of 64 bits. -/
def checkedSum (first second : ℕ) : Option ℕ :=
  if first + second < 2 ^ 64 then some (first + second) else none

/-- `visible_audit_window`, with the checks of its differences and of its sum. The differences that
the source writes as saturating have none. -/
def visibleAuditWindowChecked (app : App) (viewportRows : ℕ) : Option VisibleList := do
  let filtered := app.filteredAudit
  let total := filtered.length
  if total = 0 then return { relativeSelected := 0, items := [], start := 0, total := 0 }
  let height := max viewportRows 1
  let selected := min app.listSelected (← checkedSub total 1)
  let start := if total ≤ height then 0 else min (selected - height / 2) (total - height)
  let stop := min (← checkedSum start height) total
  let relativeSelected ← checkedSub selected start
  let rows ← checkedSub stop start
  return { relativeSelected, items := (filtered.drop start).take rows, start, total }

theorem checkedSub_of_le {first second : ℕ} (hle : second ≤ first) :
    checkedSub first second = some (first - second) := if_pos hle

theorem checkedSum_of_lt {first second : ℕ} (hlt : first + second < 2 ^ 64) :
    checkedSum first second = some (first + second) := if_pos hlt

/-- No difference of the window is below zero and its sum fits a word. Assumes: the viewport and the
log do. -/
theorem visibleAuditWindowChecked_eq {viewportRows : ℕ} (hrows : viewportRows < 2 ^ 64)
    (hlog : app.filteredAudit.length < 2 ^ 64) :
    app.visibleAuditWindowChecked viewportRows = some (app.visibleAuditWindow viewportRows) := by
  have hbefore := app.windowStart_le_selected viewportRows
  have hend := app.windowStart_add_le viewportRows
  have hsum : app.windowStart viewportRows + max viewportRows 1 < 2 ^ 64 := by
    unfold windowStart
    split_ifs
    · omega
    · omega
  unfold visibleAuditWindowChecked visibleAuditWindow
  dsimp only
  by_cases hempty : app.filteredAudit.length = 0
  · rw [if_pos hempty, if_pos hempty]
    rfl
  · rw [if_neg hempty, if_neg hempty, checkedSub_of_le (by omega), Option.bind_eq_bind,
      Option.bind_some]
    change (checkedSum (app.windowStart viewportRows) (max viewportRows 1)).bind _ = _
    rw [checkedSum_of_lt hsum, Option.bind_some]
    change (checkedSub _ (app.windowStart viewportRows)).bind _ = _
    rw [checkedSub_of_le hbefore, Option.bind_some]
    change (checkedSub _ (app.windowStart viewportRows)).bind _ = _
    rw [checkedSub_of_le (by omega), Option.bind_some]
    rfl

/-- The drawn rows show the selected row. Assumes: the selection is in range, on the events tab. -/
theorem shows_visibleList (hrange : app.InRange) (htab : app.tab = .events) (viewportRows : ℕ) :
    (app.visibleList viewportRows).Shows app.filteredAudit app.listSelected viewportRows := by
  have hwindow : app.visibleList viewportRows = app.visibleAuditWindow viewportRows := by
    rw [visibleList, htab]
  have hselected := highlighted_eq hrange htab viewportRows
  rw [highlighted] at hselected
  by_cases hempty : app.filteredAudit = []
  · have hnone : app.visibleList viewportRows = ⟨0, [], 0, 0⟩ := by
      rw [hwindow, visibleAuditWindow, if_pos (List.length_eq_zero_iff.mpr hempty)]
    rw [hnone] at hselected ⊢
    rw [hempty] at hselected ⊢
    refine ⟨rfl, rfl, ?_, le_rfl, hselected, fun hshown ↦ absurd rfl hshown⟩
    rw [List.length_nil, Nat.zero_min]
  · have hlt := listSelected_lt hrange htab hempty
    have hmin : min app.listSelected (app.filteredAudit.length - 1) = app.listSelected := by omega
    have hbefore := app.windowStart_le_selected viewportRows
    have hend := app.windowStart_add_le viewportRows
    have hbeyond := selected_lt_windowStart_add hempty viewportRows
    have hview := visibleAuditWindow_of_ne_nil hempty viewportRows
    rw [hmin] at hbefore hbeyond hview
    rw [hwindow, hview] at hselected ⊢
    have hlength : ((app.filteredAudit.drop (app.windowStart viewportRows)).take
        (min app.filteredAudit.length (max viewportRows 1))).length =
          min app.filteredAudit.length (max viewportRows 1) := by
      rw [List.length_take, List.length_drop]
      omega
    refine ⟨rfl, ?_, hlength, ?_, hselected, fun _ ↦ ⟨?_, Nat.add_sub_of_le hbefore⟩⟩
    · rw [hlength]
    · rw [hlength]
      exact hend
    · rw [hlength]
      show app.listSelected - app.windowStart viewportRows < _
      omega

/-! ### What the keys and the detail act on -/

@[simp] theorem overlay_clampSelection (app : App) : app.clampSelection.overlay = app.overlay := by
  unfold clampSelection
  split_ifs <;> rfl

@[simp] theorem overlay_setTab (app : App) (tab : Tab) : (app.setTab tab).overlay = app.overlay :=
  overlay_clampSelection _

@[simp] theorem overlay_moveList (app : App) (delta : ℤ) :
    (app.moveList delta).overlay = app.overlay := by
  unfold moveList
  split_ifs <;> rfl

@[simp] theorem snd_openAnswerOverlay (app : App) : app.openAnswerOverlay.2 = .none := by
  unfold openAnswerOverlay
  split
  · split_ifs <;> rfl
  · rfl

@[simp] theorem snd_handleEventsFilterKey (app : App) (code : KeyCode) :
    (app.handleEventsFilterKey code).2 = .none := by
  unfold handleEventsFilterKey
  split <;> rfl

@[simp] theorem overlay_handleEventsFilterKey (app : App) (code : KeyCode) :
    (app.handleEventsFilterKey code).1.overlay = app.overlay := by
  unfold handleEventsFilterKey
  split <;> rfl

/-- Only the key for it asks to delete a rule, on the tab of the rules. -/
theorem deleteRule_of_handleKey {code : KeyCode} {id : UInt64}
    (hdelete : (app.handleKey code).2 = .command (.deleteRule id)) :
    app.tab = .rules ∧ app.deleteSelectedRule = .command (.deleteRule id) := by
  unfold handleKey at hdelete
  split at hdelete
  · unfold handleRootKey at hdelete
    split at hdelete
    case h_21 =>
      dsimp only at hdelete
      split_ifs at hdelete with htab
      exact ⟨htab, hdelete⟩
    case h_20 | h_22 | h_23 | h_25 | h_26 | h_27 | h_28 | h_29 =>
      split_ifs at hdelete <;> simp at hdelete
    all_goals cases hdelete
  · cases hdelete
  · unfold handleAddOverlayKey at hdelete
    split at hdelete
    case h_2 => split at hdelete <;> cases hdelete
    case h_6 => split_ifs at hdelete
    all_goals cases hdelete
  · unfold handleAnswerOverlayKey at hdelete
    split at hdelete
    case h_2 =>
      split_ifs at hdelete
      cases hdelete
    all_goals cases hdelete
  · next form _ =>
    unfold handleTrafficOverlayKey at hdelete
    split at hdelete
    case h_2 =>
      split at hdelete
      · next command hcommand =>
        obtain rfl : command = .deleteRule id := KeyAction.command.inj hdelete
        exact absurd hcommand (form.toCommand_ne_deleteRule id)
      · cases hdelete
    all_goals cases hdelete

/-- Only the keys for it open the form for an answer, on the tab of the prompts. Assumes: no form is
open. -/
theorem answerPrompt_of_handleKey {code : KeyCode} {form : AnswerPromptForm}
    (hoverlay : app.overlay = .none)
    (hanswer : (app.handleKey code).1.overlay = .answerPrompt form) :
    app.tab = .prompts ∧ app.openAnswerOverlay.1.overlay = .answerPrompt form := by
  have hclosed : app.overlay ≠ .answerPrompt form := by
    rw [hoverlay]
    exact nofun
  unfold handleKey at hanswer
  rw [hoverlay] at hanswer
  unfold handleRootKey prevTab nextTab at hanswer
  dsimp only at hanswer
  split at hanswer
  case h_20 =>
    split_ifs at hanswer with hrules hprompts
    · exact ⟨hprompts, hanswer⟩
    · exact absurd hanswer hclosed
  case h_23 =>
    split_ifs at hanswer with hprompts
    · exact ⟨hprompts, hanswer⟩
    · exact absurd hanswer hclosed
  case h_3 => cases hanswer
  case h_14 | h_15 | h_16 | h_17 | h_18 | h_19 | h_24 | h_28 | h_29 =>
    split_ifs at hanswer <;> simp only [overlay_moveList, overlay_handleEventsFilterKey] at hanswer
      <;> exact absurd hanswer hclosed
  all_goals
    try rw [overlay_setTab] at hanswer
    exact absurd hanswer hclosed

/-- What a tab does with the selected row: nothing when there are no rows, else what it does with
that row, which there is. -/
def OnRow {α : Type} (rows : List α) (selected : ℕ) (nothing : Prop) (acts : α → Prop) : Prop :=
  (rows = [] ∧ nothing) ∨ ∃ row, rows[selected]? = some row ∧ acts row

/-- An index in range is that of a row, when there is one. -/
theorem onRow_of_inRange {α : Type} {rows : List α} {selected : ℕ} {nothing : Prop}
    {acts : α → Prop} (hrange : selected = 0 ∨ selected < rows.length)
    (hnothing : rows[selected]? = none → nothing)
    (hacts : ∀ row, rows[selected]? = some row → acts row) : OnRow rows selected nothing acts := by
  by_cases hempty : rows = []
  · refine .inl ⟨hempty, hnothing ?_⟩
    rw [hempty, List.getElem?_nil]
  · have hpos := List.length_pos_iff.mpr hempty
    have hlt : selected < rows.length := by omega
    have hrow : rows[selected]? = some rows[selected] := List.getElem?_eq_getElem hlt
    exact .inr ⟨rows[selected], hrow, hacts _ hrow⟩

/-- Every action that goes by the index acts on the row at the index, which exists, or on nothing.
The detail of the events goes by the place in the whole log. -/
structure ActsOnRows (app : App) : Prop where
  deletes : ∀ code id, (app.handleKey code).2 = .command (.deleteRule id) →
    app.tab = .rules ∧ ∃ rule, app.rules[app.listSelected]? = some rule ∧ rule.id = id
  answers : ∀ code form, app.overlay = .none →
    (app.handleKey code).1.overlay = .answerPrompt form →
    app.tab = .prompts ∧ ∃ prompt, app.prompts[app.listSelected]? = some prompt ∧
      form = .new prompt
  rules : app.tab = .rules → OnRow app.rules app.listSelected
    (app.deleteSelectedRule = .none ∧ app.detailLines = ["no rules loaded", "a add · r refresh"])
    fun rule ↦ app.deleteSelectedRule = .command (.deleteRule rule.id) ∧
      app.detailLines = { app with rules := [rule], listSelected := 0 }.detailLines
  prompts : app.tab = .prompts → OnRow app.prompts app.listSelected
    (app.openAnswerOverlay = (app, .none) ∧ app.detailLines = ["no pending prompts", "r refresh"])
    fun prompt ↦ app.openAnswerOverlay.1.overlay =
        (if prompt.canAnswer then .answerPrompt (.new prompt)
          else .notice "prompt expired or stale; answer disabled") ∧
      app.detailLines = { app with prompts := [prompt], listSelected := 0 }.detailLines
  processes : app.tab = .apps → OnRow app.processes app.listSelected
    (app.detailLines = ["no observed processes yet", "outbound connects fill this list"])
    fun row ↦ app.detailLines = { app with processes := [row], listSelected := 0 }.detailLines
  events : app.tab = .events → OnRow app.audit app.listSelected
    (app.detailLines = ["no audit frame selected"]) fun line ↦ app.detailLines = [line]

/-- Every indexed action is in range. Assumes: the selection is. -/
theorem actsOnRows (hrange : app.InRange) : app.ActsOnRows where
  deletes code id hdelete := by
    obtain ⟨htab, hselected⟩ := deleteRule_of_handleKey hdelete
    refine ⟨htab, ?_⟩
    unfold deleteSelectedRule at hselected
    split at hselected
    · next rule hrule =>
      exact ⟨rule, hrule, IpcCommand.deleteRule.inj (KeyAction.command.inj hselected)⟩
    · cases hselected
  answers code form hoverlay hanswer := by
    obtain ⟨htab, hopened⟩ := answerPrompt_of_handleKey hoverlay hanswer
    refine ⟨htab, ?_⟩
    unfold openAnswerOverlay at hopened
    split at hopened
    · next prompt hprompt =>
      split_ifs at hopened
      exact ⟨prompt, hprompt, (Overlay.answerPrompt.inj hopened).symm⟩
    · rw [hoverlay] at hopened
      cases hopened
  rules htab := by
    rw [InRange, listLen, htab] at hrange
    refine onRow_of_inRange hrange (fun hnone ↦ ?_) fun rule hrule ↦ ?_
    · simp only [deleteSelectedRule, detailLines, htab, ruleDetailLines, hnone, and_self]
    · simp only [deleteSelectedRule, detailLines, htab, ruleDetailLines, hrule,
        List.getElem?_cons_zero, and_self]
  prompts htab := by
    rw [InRange, listLen, htab] at hrange
    refine onRow_of_inRange hrange (fun hnone ↦ ?_) fun prompt hprompt ↦ ?_
    · simp only [openAnswerOverlay, detailLines, htab, promptDetailLines, hnone, and_self]
    · refine ⟨?_, ?_⟩
      · rw [openAnswerOverlay, hprompt]
        dsimp only
        split_ifs <;> rfl
      · simp only [detailLines, htab, promptDetailLines, hprompt, List.getElem?_cons_zero]
  processes htab := by
    rw [InRange, listLen, htab] at hrange
    refine onRow_of_inRange hrange (fun hnone ↦ ?_) fun row hrow ↦ ?_
    · simp only [detailLines, htab, processDetailLines, hnone]
    · simp only [detailLines, htab, processDetailLines, hrow, List.getElem?_cons_zero]
  events htab := by
    rw [InRange, listLen, htab] at hrange
    have hshorter : app.filteredAudit.length ≤ app.audit.length := List.length_filter_le _ _
    have hwhole : app.listSelected = 0 ∨ app.listSelected < app.audit.length :=
      hrange.imp_right fun hlt ↦ hlt.trans_le hshorter
    refine onRow_of_inRange hwhole (fun hnone ↦ ?_) fun line hline ↦ ?_
    · simp only [detailLines, htab, eventDetailLines, hnone]
    · simp only [detailLines, htab, eventDetailLines, hline]

/-! ### Runs -/

@[simp] theorem audit_clampSelection (app : App) : app.clampSelection.audit = app.audit := by
  unfold clampSelection
  split_ifs <;> rfl

@[simp] theorem audit_setTab (app : App) (tab : Tab) : (app.setTab tab).audit = app.audit :=
  audit_clampSelection _

@[simp] theorem audit_moveList (app : App) (delta : ℤ) : (app.moveList delta).audit = app.audit := by
  unfold moveList
  split_ifs <;> rfl

@[simp] theorem audit_handleEventsFilterKey (app : App) (code : KeyCode) :
    (app.handleEventsFilterKey code).1.audit = app.audit := by
  unfold handleEventsFilterKey
  split <;> rfl

/-- No key changes the log. -/
theorem audit_handleKey (app : App) (code : KeyCode) : (app.handleKey code).1.audit = app.audit := by
  unfold handleKey
  split
  · unfold handleRootKey prevTab nextTab
    split
    case h_20 =>
      split_ifs
      · rfl
      · exact (sameLists_openAnswerOverlay app).audit
      · rfl
    case h_23 =>
      split_ifs
      · exact (sameLists_openAnswerOverlay app).audit
      · rfl
    case h_14 | h_15 | h_16 | h_17 | h_18 | h_19 | h_24 | h_28 | h_29 =>
      split_ifs <;> simp only [audit_moveList, audit_handleEventsFilterKey]
    all_goals simp only [audit_setTab]
  · split_ifs <;> rfl
  · exact (sameLists_handleAddOverlayKey app _ code).audit
  · exact (sameLists_handleAnswerOverlayKey app _ code).audit
  · exact (sameLists_handleTrafficOverlayKey app _ code).audit

/-- The log stays within its bound. -/
theorem length_audit_step {app : App} (hlog : app.audit.length ≤ maxAuditLines) (input : Input) :
    (app.step input).audit.length ≤ maxAuditLines := by
  have hcap : 0 < maxAuditLines := by decide
  cases input with
  | key code =>
    rw [step, audit_handleKey]
    exact hlog
  | event event =>
    cases event with
    | audit record =>
      show (app.pushAuditLine record.logLine).audit.length ≤ maxAuditLines
      unfold pushAuditLine
      rw [audit_clampSelection, List.length_append, List.length_singleton]
      by_cases hfull : app.audit.length = maxAuditLines
      · rw [if_pos hfull]
        show app.audit.tail.length + 1 ≤ maxAuditLines
        rw [List.length_tail]
        omega
      · rw [if_neg hfull]
        omega
    | rules rules => exact (audit_clampSelection _).symm ▸ hlog
    | prompts prompts => exact (audit_clampSelection _).symm ▸ hlog
    | processes processes => exact (audit_clampSelection _).symm ▸ hlog
    | _ => exact hlog

theorem length_audit_run (socket : String) (inputs : List Input) :
    (run socket inputs).audit.length ≤ maxAuditLines := by
  rw [run, ← Run.stateAt_length]
  exact Run.stateAt_invariant step (new socket) inputs
    (fun app ↦ app.audit.length ≤ maxAuditLines) (Nat.zero_le _)
    (fun app input hlog ↦ length_audit_step hlog input) inputs.length

/-- In every run the selection is in range, so that every indexed action acts on a row that exists or
on nothing; and on the events tab the window of every height shows a stretch of the filtered log with
the selected line in it, and no step of its computation leaves the range of unsigned numbers. -/
theorem selection_and_window_in_range (socket : String) (inputs : List Input) :
    (run socket inputs).InRange ∧ (run socket inputs).ActsOnRows ∧
      ((run socket inputs).tab = .events → ∀ viewportRows,
        ((run socket inputs).visibleList viewportRows).Shows (run socket inputs).filteredAudit
          (run socket inputs).listSelected viewportRows ∧
        (viewportRows < 2 ^ 64 → (run socket inputs).visibleAuditWindowChecked viewportRows =
          some ((run socket inputs).visibleList viewportRows))) := by
  have hrange := inRange_run socket inputs
  refine ⟨hrange, actsOnRows hrange, fun htab viewportRows ↦ ⟨?_, fun hrows ↦ ?_⟩⟩
  · exact shows_visibleList hrange htab viewportRows
  · have hshorter : (run socket inputs).filteredAudit.length ≤ (run socket inputs).audit.length :=
      List.length_filter_le _ _
    have hlog := hshorter.trans (length_audit_run socket inputs)
    have hword : maxAuditLines < 2 ^ 64 := by decide
    rw [visibleAuditWindowChecked_eq hrows (hlog.trans_lt hword), visibleList, htab]

/-- The window of a log whose filter shows the second of two records. -/
theorem window_of_filteredInputs : (run "" filteredInputs).tab = .events ∧
    ((run "" filteredInputs).visibleList 1).Shows (run "" filteredInputs).filteredAudit
      (run "" filteredInputs).listSelected 1 := by
  have htab : (run "" filteredInputs).tab = .events := by decide
  exact ⟨htab, ((selection_and_window_in_range "" filteredInputs).2.2 htab 1).1⟩

end App

end Terminal

end InterFire
