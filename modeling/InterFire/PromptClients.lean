import InterFire.PromptFrames

/-!
# The clients that answer prompts

The answer form of the terminal client (`App` of `crates/interfire-tui/src/app.rs`) and the
connection alert of the desktop (`ConnectionAlert` of `ui/src/alert.rs`, with the methods of
`ui/src/app.rs` that drive it).

The form holds a copy of the row it was opened for, and no poll touches it. The alert is brought up
to date from every poll: it takes the row with its id, and gives way to another row when it can no
longer be submitted. The only thing either of them sends about the prompt is its id.

Of the terminal client this is the prompts tab. The forms for rules and for traffic, and the lists
of the other tabs, neither read nor send prompts; the selection that the tabs share is set back to
the first row whenever the tab changes.
-/

set_option autoImplicit false
set_option relaxedAutoImplicit false

namespace InterFire

/-! ### The terminal client -/

inductive AnswerVerdict
  | allow
  | deny
  deriving DecidableEq, Repr

namespace AnswerVerdict

def asStr : AnswerVerdict → String
  | allow => "allow"
  | deny => "deny"

def toggle : AnswerVerdict → AnswerVerdict
  | allow => deny
  | deny => allow

end AnswerVerdict

inductive AnswerScope
  | once
  | session
  | permanent
  deriving DecidableEq, Repr

namespace AnswerScope

def asStr : AnswerScope → String
  | once => "once"
  | session => "session"
  | permanent => "permanent"

def next : AnswerScope → AnswerScope
  | once => session
  | session => permanent
  | permanent => once

def prev : AnswerScope → AnswerScope
  | once => permanent
  | session => once
  | permanent => session

end AnswerScope

/-- What the operator chooses for one row. -/
structure AnswerPromptForm where
  prompt : PromptRow
  verdict : AnswerVerdict
  scope : AnswerScope
  deriving DecidableEq, Repr

def AnswerPromptForm.new (prompt : PromptRow) : AnswerPromptForm := ⟨prompt, .deny, .once⟩

inductive IpcCommand
  | refreshPrompts
  | answerPrompt (id : UInt64) (verdict scope : String)
  deriving DecidableEq, Repr

def AnswerPromptForm.toCommand (form : AnswerPromptForm) : IpcCommand :=
  .answerPrompt form.prompt.id form.verdict.asStr form.scope.asStr

inductive KeyAction
  | none
  | quit
  | command (command : IpcCommand)
  deriving DecidableEq, Repr

inductive Overlay
  | none
  | notice (message : String)
  | answerPrompt (form : AnswerPromptForm)
  deriving DecidableEq, Repr

inductive Tab
  | status
  | apps
  | rules
  | prompts
  | events
  | help
  deriving DecidableEq, Repr

namespace Tab

def all : List Tab := [status, apps, rules, prompts, events, help]

def index : Tab → ℕ
  | status => 0
  | apps => 1
  | rules => 2
  | prompts => 3
  | events => 4
  | help => 5

def fromIndex (index : ℕ) : Tab := all.getD (index % all.length) status

def hasSplit : Tab → Bool
  | apps | rules | prompts | events => true
  | status | help => false

end Tab

inductive Pane
  | list
  | detail
  deriving DecidableEq, Repr

inductive KeyCode
  | esc
  | enter
  | tab
  | backTab
  | left
  | right
  | up
  | down
  | char (character : Char)
  deriving DecidableEq, Repr

/-- What the terminal client shows. -/
structure App where
  prompts : List PromptRow
  tab : Tab
  pane : Pane
  listSelected : ℕ
  overlay : Overlay
  deriving DecidableEq, Repr

/-- What the polls and commands of the terminal client report about prompts. -/
inductive IpcEvent
  | prompts (rows : List PromptRow)
  | actionError (message : String)
  deriving DecidableEq, Repr

namespace App

def new : App :=
  { prompts := [], tab := .status, pane := .list, listSelected := 0, overlay := .none }

/-- Keep the selection inside the list. -/
def clampSelection (app : App) : App :=
  if app.tab ≠ .prompts then app
  else if app.prompts.length = 0 then { app with listSelected := 0 }
  else if app.prompts.length ≤ app.listSelected then
    { app with listSelected := app.prompts.length - 1 }
  else app

def apply (app : App) : IpcEvent → App
  | .prompts rows => { app with prompts := rows }.clampSelection
  | .actionError message => { app with overlay := .notice ("error: " ++ message) }

def setTab (app : App) (tab : Tab) : App :=
  { app with tab, pane := .list, listSelected := 0 }.clampSelection

def nextTab (app : App) : App := app.setTab (Tab.fromIndex (app.tab.index + 1))

def prevTab (app : App) : App :=
  app.setTab (Tab.fromIndex (if app.tab.index = 0 then Tab.all.length - 1 else app.tab.index - 1))

/-- Move the selection of the prompts tab, around the ends of the list. -/
def moveList (app : App) (delta : ℤ) : App :=
  if app.tab ≠ .prompts then app
  else if app.prompts.length = 0 then { app with listSelected := 0 }
  else { app with listSelected := ((app.listSelected + delta) % app.prompts.length).toNat }

/-- Open the form for the selected row, unless its time is over. -/
def openAnswerOverlay (app : App) : App :=
  match app.prompts[app.listSelected]? with
  | none => app
  | some prompt =>
    if prompt.canAnswer then { app with overlay := .answerPrompt (.new prompt) }
    else { app with overlay := .notice "prompt expired or stale; answer disabled" }

/-- A key without an overlay. -/
def handleRootKey (app : App) (code : KeyCode) : App × KeyAction :=
  match code with
  | .char 'q' | .char 'Q' => (app, .quit)
  | .char '?' => ({ app with overlay := .notice "Press Esc to dismiss this overlay." }, .none)
  | .left | .backTab => (app.prevTab, .none)
  | .right | .tab => (app.nextTab, .none)
  | .char '1' => (app.setTab .status, .none)
  | .char '2' => (app.setTab .apps, .none)
  | .char '3' => (app.setTab .rules, .none)
  | .char '4' => (app.setTab .prompts, .none)
  | .char '5' => (app.setTab .events, .none)
  | .char '6' => (app.setTab .help, .none)
  | .char 'h' => (if app.tab.hasSplit then { app with pane := .list } else app, .none)
  | .char 'l' => (if app.tab.hasSplit then { app with pane := .detail } else app, .none)
  | .char 'j' | .down => (if app.pane = .list then app.moveList 1 else app, .none)
  | .char 'k' | .up => (if app.pane = .list then app.moveList (-1) else app, .none)
  | .char 'a' | .enter => (if app.tab = .prompts then app.openAnswerOverlay else app, .none)
  | .char 'r' => (app, if app.tab = .prompts then .command .refreshPrompts else .none)
  | _ => (app, .none)

/-- A key while the form is open. -/
def handleAnswerOverlayKey (app : App) (form : AnswerPromptForm) (code : KeyCode) :
    App × KeyAction :=
  match code with
  | .esc => ({ app with overlay := .none }, .none)
  | .enter =>
    if !form.prompt.canAnswer then
      ({ app with overlay := .notice "prompt expired or stale; actions disabled" }, .none)
    else ({ app with overlay := .none }, .command form.toCommand)
  | .char 'a' | .char 'A' =>
    ({ app with overlay := .answerPrompt { form with verdict := .allow } }, .none)
  | .char 'd' | .char 'D' =>
    ({ app with overlay := .answerPrompt { form with verdict := .deny } }, .none)
  | .left | .right =>
    ({ app with overlay := .answerPrompt { form with verdict := form.verdict.toggle } }, .none)
  | .tab => ({ app with overlay := .answerPrompt { form with scope := form.scope.next } }, .none)
  | .backTab =>
    ({ app with overlay := .answerPrompt { form with scope := form.scope.prev } }, .none)
  | _ => (app, .none)

/-- A key, at the root or in an overlay. -/
def handleKey (app : App) (code : KeyCode) : App × KeyAction :=
  match app.overlay with
  | .none => app.handleRootKey code
  | .notice _ =>
    (if code = .esc ∨ code = .enter ∨ code = .char 'q' then { app with overlay := .none } else app,
      .none)
  | .answerPrompt form => app.handleAnswerOverlayKey form code

/-! What the keys do to the rows and the form. -/

/-- The rows and the overlay are as before. -/
def SameRows (before after : App) : Prop :=
  after.prompts = before.prompts ∧ after.overlay = before.overlay

theorem sameRows_clampSelection (app : App) : SameRows app app.clampSelection := by
  unfold clampSelection
  split_ifs <;> exact ⟨rfl, rfl⟩

theorem sameRows_setTab (app : App) (tab : Tab) : SameRows app (app.setTab tab) :=
  sameRows_clampSelection { app with tab, pane := .list, listSelected := 0 }

theorem sameRows_moveList (app : App) (delta : ℤ) : SameRows app (app.moveList delta) := by
  unfold moveList
  split_ifs <;> exact ⟨rfl, rfl⟩

/-- What a key at the root leaves: the rows, and the overlay, a notice or a new form for one of the
rows. -/
structure RootStep (before after : App) : Prop where
  prompts : after.prompts = before.prompts
  overlay : after.overlay = before.overlay ∨ (∃ message, after.overlay = .notice message) ∨
    ∃ row ∈ before.prompts, after.overlay = .answerPrompt (.new row)

theorem SameRows.rootStep {before after : App} (hsame : SameRows before after) :
    RootStep before after :=
  ⟨hsame.1, .inl hsame.2⟩

theorem rootStep_openAnswerOverlay (app : App) : RootStep app app.openAnswerOverlay := by
  unfold openAnswerOverlay
  split
  · exact ⟨rfl, .inl rfl⟩
  · next row hrow =>
    split_ifs
    · exact ⟨rfl, .inr (.inr ⟨row, List.mem_of_getElem? hrow, rfl⟩)⟩
    · exact ⟨rfl, .inr (.inl ⟨_, rfl⟩)⟩

/-- A choice between two steps. Assumes: both are steps. -/
theorem rootStep_ite {app first second : App} (condition : Prop) [Decidable condition]
    (hfirst : RootStep app first) (hsecond : RootStep app second) :
    RootStep app (if condition then first else second) := by
  split_ifs
  · exact hfirst
  · exact hsecond

theorem rootStep_handleRootKey (app : App) (code : KeyCode) :
    RootStep app (app.handleRootKey code).1 := by
  have hsame : RootStep app app := ⟨rfl, .inl rfl⟩
  have hpane : ∀ pane, RootStep app { app with pane } := fun _ ↦ ⟨rfl, .inl rfl⟩
  have htab : ∀ tab, RootStep app (app.setTab tab, KeyAction.none).1 :=
    fun tab ↦ (sameRows_setTab app tab).rootStep
  have hmove : ∀ delta, RootStep app (app.moveList delta) :=
    fun delta ↦ (sameRows_moveList app delta).rootStep
  unfold handleRootKey prevTab nextTab
  -- The keys in the order of the definition, with an alternative of its own for each.
  split
  case h_1 | h_2 | h_22 | h_23 => exact hsame
  case h_3 => exact ⟨rfl, .inr (.inl ⟨_, rfl⟩)⟩
  case h_4 | h_5 | h_6 | h_7 | h_8 | h_9 | h_10 | h_11 | h_12 | h_13 => exact htab _
  case h_14 | h_15 => exact rootStep_ite _ (hpane _) hsame
  case h_16 | h_17 | h_18 | h_19 => exact rootStep_ite _ (hmove _) hsame
  case h_20 | h_21 => exact rootStep_ite _ (rootStep_openAnswerOverlay app) hsame

/-- A key at the root sends no answer. -/
theorem handleRootKey_not_answer (app : App) (code : KeyCode) (id : UInt64)
    (verdict scope : String) :
    (app.handleRootKey code).2 ≠ .command (.answerPrompt id verdict scope) := by
  unfold handleRootKey
  split
  case h_22 => split_ifs <;> simp
  all_goals simp

theorem prompts_handleAnswerOverlayKey (app : App) (form : AnswerPromptForm) (code : KeyCode) :
    (app.handleAnswerOverlayKey form code).1.prompts = app.prompts := by
  unfold handleAnswerOverlayKey
  split
  case h_2 => split_ifs <;> rfl
  all_goals rfl

/-- A form that is open after a key in the form shows the same row. Assumes: a form is open before
and after. -/
theorem prompt_handleAnswerOverlayKey {app : App} {form after : AnswerPromptForm} {code : KeyCode}
    (hopen : app.overlay = .answerPrompt form)
    (hafter : (app.handleAnswerOverlayKey form code).1.overlay = .answerPrompt after) :
    after.prompt = form.prompt := by
  unfold handleAnswerOverlayKey at hafter
  split at hafter
  case h_1 => cases hafter
  case h_2 => split_ifs at hafter
  case h_11 =>
    rw [hopen] at hafter
    rw [← Overlay.answerPrompt.inj hafter]
  all_goals rw [← Overlay.answerPrompt.inj hafter]

/-- The form sends the id of its row. Assumes: it sends an answer. -/
theorem id_of_handleAnswerOverlayKey {app : App} {form : AnswerPromptForm} {code : KeyCode}
    {id : UInt64} {verdict scope : String}
    (hsends : (app.handleAnswerOverlayKey form code).2 =
      .command (.answerPrompt id verdict scope)) : id = form.prompt.id := by
  unfold handleAnswerOverlayKey at hsends
  split at hsends
  case h_2 =>
    split_ifs at hsends
    exact (IpcCommand.answerPrompt.inj (KeyAction.command.inj hsends)).1.symm
  all_goals cases hsends

/-- No key changes the rows. -/
theorem prompts_handleKey (app : App) (code : KeyCode) :
    (app.handleKey code).1.prompts = app.prompts := by
  unfold handleKey
  split
  · exact (rootStep_handleRootKey app code).prompts
  · dsimp only
    split_ifs <;> rfl
  · exact prompts_handleAnswerOverlayKey app _ code

/-- A form that is open after a key shows the row it showed before, or has just been opened for one
of the rows. Assumes: a form is open after the key. -/
theorem form_handleKey {app : App} {code : KeyCode} {after : AnswerPromptForm}
    (hafter : (app.handleKey code).1.overlay = .answerPrompt after) :
    (∃ form, app.overlay = .answerPrompt form ∧ after.prompt = form.prompt) ∨
      ((∀ form, app.overlay ≠ .answerPrompt form) ∧ after.prompt ∈ app.prompts) := by
  unfold handleKey at hafter
  split at hafter
  · next hclosed =>
    refine .inr ⟨fun form hopen ↦ ?_, ?_⟩
    · rw [hclosed] at hopen
      cases hopen
    · rcases (rootStep_handleRootKey app code).overlay with hsame | ⟨message, hnotice⟩ |
        ⟨row, hrow, hnew⟩
      · rw [hsame, hclosed] at hafter
        cases hafter
      · rw [hnotice] at hafter
        cases hafter
      · rw [hnew] at hafter
        obtain rfl := Overlay.answerPrompt.inj hafter
        exact hrow
  · next message hnotice =>
    dsimp only at hafter
    split_ifs at hafter
    rw [hnotice] at hafter
    cases hafter
  · next form hopen => exact .inl ⟨form, hopen, prompt_handleAnswerOverlayKey hopen hafter⟩

/-- An answer carries the id of the row that the form shows. Assumes: the key sends an answer. -/
theorem form_of_answer {app : App} {code : KeyCode} {id : UInt64} {verdict scope : String}
    (hsends : (app.handleKey code).2 = .command (.answerPrompt id verdict scope)) :
    ∃ form, app.overlay = .answerPrompt form ∧ id = form.prompt.id := by
  unfold handleKey at hsends
  split at hsends
  · exact absurd hsends (handleRootKey_not_answer app code id verdict scope)
  · cases hsends
  · next form hopen => exact ⟨form, hopen, id_of_handleAnswerOverlayKey hsends⟩

end App

/-! ### The desktop alert -/

inductive AlertVerdict
  | allow
  | deny
  deriving DecidableEq, Repr

def AlertVerdict.asStr : AlertVerdict → String
  | .allow => "allow"
  | .deny => "deny"

inductive AlertScope
  | once
  | session
  | permanent
  deriving DecidableEq, Repr

def AlertScope.asStr : AlertScope → String
  | .once => "once"
  | .session => "session"
  | .permanent => "permanent"

/-- The alert of the desktop. -/
structure ConnectionAlert where
  prompt : PromptRow
  verdict : AlertVerdict
  scope : AlertScope
  detailsOpen : Bool
  stale : Bool
  statusMessage : Option String
  deriving DecidableEq, Repr

namespace ConnectionAlert

def fromPrompt (prompt : PromptRow) : ConnectionAlert :=
  { prompt, verdict := .deny, scope := .once, detailsOpen := false, stale := !prompt.canAnswer,
    statusMessage := none }

/-- Take the row with the alert's id, or mark the alert stale when there is none. -/
def syncFromList (alert : ConnectionAlert) (prompts : List PromptRow) : ConnectionAlert :=
  match prompts.find? (·.id = alert.prompt.id) with
  | some row => { alert with prompt := row, stale := !row.canAnswer }
  | none => { alert with stale := true }

def canSubmit (alert : ConnectionAlert) : Bool := !alert.stale && alert.prompt.canAnswer

/-- The words of the answer, unless the alert can no longer be answered. -/
def answerFrame (alert : ConnectionAlert) (verdict : AlertVerdict) :
    Option (UInt64 × String × String) :=
  if !alert.canSubmit then none
  else some (alert.prompt.id, verdict.asStr, alert.scope.asStr)

/-- The first row that can be answered. -/
def answerable (prompts : List PromptRow) : Option PromptRow := prompts.find? (·.canAnswer)

/-- Pick the next prompt that can be answered, or keep the alert when there is none. -/
def advance (current : Option ConnectionAlert) (prompts : List PromptRow) :
    Option ConnectionAlert :=
  match current, answerable prompts with
  | none, some prompt => some (fromPrompt prompt)
  | none, none => none
  | some alert, some prompt =>
    let alert := alert.syncFromList prompts
    if alert.canSubmit then some alert else some (fromPrompt prompt)
  | some alert, none => some (alert.syncFromList prompts)

/-- The alert that a poll keeps, with the operator's scope. -/
def kept (current : Option ConnectionAlert) (prompts : List PromptRow) : Option ConnectionAlert :=
  (current.map (·.syncFromList prompts)).filter fun alert ↦
    alert.canSubmit || (answerable prompts).isNone

/-- A poll keeps the alert or opens one for the first row that can be answered. -/
theorem advance_eq (current : Option ConnectionAlert) (prompts : List PromptRow) :
    advance current prompts =
      (kept current prompts).or ((answerable prompts).map fromPrompt) := by
  unfold advance kept
  cases current with
  | none => cases answerable prompts <;> rfl
  | some alert =>
    cases answerable prompts with
    | none => simp [Option.filter]
    | some prompt =>
      by_cases hsubmit : (alert.syncFromList prompts).canSubmit = true
      · simp [Option.filter, hsubmit]
      · simp [Option.filter, hsubmit]

/-- An alert that is brought up to date keeps its id. -/
theorem id_syncFromList (alert : ConnectionAlert) (prompts : List PromptRow) :
    (alert.syncFromList prompts).prompt.id = alert.prompt.id := by
  unfold syncFromList
  split
  · next row hrow => simpa using List.find?_some hrow
  · rfl

/-- An alert that is brought up to date shows a row of the list or the row it showed before. -/
theorem prompt_syncFromList (alert : ConnectionAlert) (prompts : List PromptRow) :
    (alert.syncFromList prompts).prompt ∈ prompts ∨
      (alert.syncFromList prompts).prompt = alert.prompt := by
  unfold syncFromList
  split
  · next row hrow => exact .inl (List.mem_of_find?_eq_some hrow)
  · exact .inr rfl

end ConnectionAlert

/-- The part of the desktop that shows the alert. -/
structure Desktop where
  alert : Option ConnectionAlert
  deriving DecidableEq, Repr

namespace Desktop

/-- A poll. A prompt list that could not be fetched is an empty one. -/
def refreshFromDaemon (desktop : Desktop) (prompts : Option (List PromptRow)) : Desktop :=
  { desktop with alert := ConnectionAlert.advance desktop.alert (prompts.getD []) }

def setScope (desktop : Desktop) (scope : AlertScope) : Desktop :=
  { desktop with alert := desktop.alert.map fun alert ↦ { alert with scope } }

def toggleDetails (desktop : Desktop) : Desktop :=
  { desktop with alert := desktop.alert.map fun alert ↦
      { alert with detailsOpen := !alert.detailsOpen } }

/-- The answer that the operator sends with a verdict. -/
def submitVerdict (desktop : Desktop) (verdict : AlertVerdict) :
    Option (UInt64 × String × String) :=
  desktop.alert.bind (·.answerFrame verdict)

/-- The reply to an answer: a pong closes the alert, and an error is shown in it. -/
def submitted (desktop : Desktop) : Except String Unit → Desktop
  | .ok () => { desktop with alert := none }
  | .error message =>
    { desktop with alert := desktop.alert.map fun alert ↦
        { alert with statusMessage := some message } }

end Desktop

end InterFire
