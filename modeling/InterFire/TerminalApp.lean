import InterFire.AuditClients
import InterFire.ClientRequests
import InterFire.Library.Run
import InterFire.PromptClients
import InterFire.StatusFrames

/-!
# The terminal client

`App` of `crates/interfire-tui/src/app.rs`: the tabs with their lists, the selection that they share,
the overlays, and what a poll, the audit stream or a key does to them. `PromptClients` has the prompts
tab of the same program by itself.

`inRange_run` is what every run keeps: the selection is the first row, or a row of the list of the
tab that is shown. `highlighted_eq` says that the window of the events tab shows the selected line of
the filtered log, whatever the height.
-/

set_option autoImplicit false
set_option relaxedAutoImplicit false

namespace InterFire

/-- The label of a rule in a list. -/
def RuleRow.listLabel (row : RuleRow) : String :=
  decimal row.id.toNat ++ "  " ++ row.executable ++ "  " ++ row.verdict ++ "  :" ++
    decimal row.port.toNat

/-- The label of a prompt in a list. -/
def PromptRow.listLabel (row : PromptRow) : String :=
  decimal row.id.toNat ++ "  " ++ row.executable ++ "  " ++ row.destination ++ ":" ++
    decimal row.port.toNat ++ " " ++ row.protocol ++ "  " ++ decimal row.remainingSecs.toNat ++ "s"

/-- The label of a process in a list. -/
def ProcessRow.listLabel (row : ProcessRow) : String :=
  decimal row.pid.toNat ++ "  " ++ row.executable ++ "  " ++ row.verdict ++ "  " ++ row.ports

namespace Terminal

/-- As many lines as a subscriber is kept. -/
def maxAuditLines : ℕ := maxLogRecordsPerSubscriber

/-! ### Forms -/

inductive TrafficScopeChoice
  | user
  | machine
  deriving DecidableEq, Repr

namespace TrafficScopeChoice

def asStr : TrafficScopeChoice → String
  | user => "user"
  | machine => "machine"

def toggle : TrafficScopeChoice → TrafficScopeChoice
  | user => machine
  | machine => user

end TrafficScopeChoice

inductive TrafficDirectionChoice
  | out
  | «in»
  | all
  deriving DecidableEq, Repr

namespace TrafficDirectionChoice

def asStr : TrafficDirectionChoice → String
  | out => "out"
  | «in» => "in"
  | all => "all"

def next : TrafficDirectionChoice → TrafficDirectionChoice
  | out => «in»
  | «in» => all
  | all => out

def prev : TrafficDirectionChoice → TrafficDirectionChoice
  | out => all
  | «in» => out
  | all => «in»

end TrafficDirectionChoice

inductive TrafficActionChoice
  | block
  | unblock
  deriving DecidableEq, Repr

def TrafficActionChoice.toggle : TrafficActionChoice → TrafficActionChoice
  | block => unblock
  | unblock => block

structure TrafficForm where
  scope : TrafficScopeChoice
  direction : TrafficDirectionChoice
  action : TrafficActionChoice
  deriving DecidableEq, Repr

inductive IpcCommand
  | refreshRules
  | refreshPrompts
  | deleteRule (id : UInt64)
  | addRule (rule : NewRule)
  | answerPrompt (id : UInt64) (verdict scope : String)
  | trafficBlock (scope direction : String)
  | trafficUnblock (scope : String)
  deriving DecidableEq, Repr

namespace TrafficForm

def new : TrafficForm := ⟨.user, .out, .block⟩

def toCommand (form : TrafficForm) : Except String IpcCommand :=
  if form.scope = .machine then
    .error "machine traffic needs: pkexec interfirectl traffic block|unblock --scope=machine …"
  else
    match form.action with
    | .block => .ok (.trafficBlock form.scope.asStr form.direction.asStr)
    | .unblock => .ok (.trafficUnblock form.scope.asStr)

end TrafficForm

inductive Overlay
  | none
  | notice (message : String)
  | addRule (form : AddRuleForm)
  | answerPrompt (form : AnswerPromptForm)
  | traffic (form : TrafficForm)
  deriving DecidableEq, Repr

inductive Link
  | connecting
  | down (detail : String)
  | up (status : DaemonStatus)
  deriving DecidableEq, Repr

inductive KeyAction
  | none
  | quit
  | command (command : IpcCommand)
  deriving DecidableEq, Repr

/-- The keys that the client tells apart. -/
inductive KeyCode
  | esc
  | enter
  | tab
  | backTab
  | left
  | right
  | up
  | down
  | backspace
  | char (character : Char)
  | other
  deriving DecidableEq, Repr

/-! ### The filter of the events -/

inductive EventsVerdictFilter
  | all
  | allow
  | deny
  | prompt
  deriving DecidableEq, Repr

namespace EventsVerdictFilter

def label : EventsVerdictFilter → String
  | all => "All"
  | allow => "Allow"
  | deny => "Deny"
  | prompt => "Prompt"

def next : EventsVerdictFilter → EventsVerdictFilter
  | all => allow
  | allow => deny
  | deny => prompt
  | prompt => all

/-- A line contains the outcome of the filter. -/
def «matches» (filter : EventsVerdictFilter) (line : String) : Bool :=
  let contains := fun part : String ↦ Decidable.decide (part.toList <:+: line.toList)
  match filter with
  | all => true
  | allow => contains "outcome=allow"
  | deny => contains "outcome=deny"
  | prompt => contains "outcome=prompt"

end EventsVerdictFilter

/-! ### The application -/

/-- What the loops of the client report. -/
inductive IpcEvent
  | status (status : DaemonStatus)
  | statsSummary (summary : StatsSummary)
  | down (detail : String)
  | audit (record : AuditStreamRecord)
  | subscriptionReady
  | rules (rules : List RuleRow)
  | prompts (prompts : List PromptRow)
  | processes (processes : List ProcessRow)
  | actionOk (message : String)
  | actionError (message : String)
  deriving DecidableEq, Repr

structure App where
  socket : String
  link : Link
  audit : List String
  rules : List RuleRow
  prompts : List PromptRow
  processes : List ProcessRow
  subscribed : Bool
  tab : Tab
  pane : Pane
  listSelected : ℕ
  overlay : Overlay
  statusMessage : Option String
  statsSummary : Option StatsSummary
  eventsFilter : EventsVerdictFilter
  deriving DecidableEq, Repr

/-- The rows of a list that are drawn. -/
structure VisibleList where
  relativeSelected : ℕ
  items : List String
  start : ℕ
  total : ℕ
  deriving DecidableEq, Repr

namespace App

def new (socket : String) : App :=
  { socket
    link := .connecting
    audit := []
    rules := []
    prompts := []
    processes := []
    subscribed := false
    tab := .status
    pane := .list
    listSelected := 0
    overlay := .none
    statusMessage := none
    statsSummary := none
    eventsFilter := .all }

def filteredAudit (app : App) : List String := app.audit.filter app.eventsFilter.matches

def listLen (app : App) : ℕ :=
  match app.tab with
  | .events => app.filteredAudit.length
  | .apps => app.processes.length
  | .rules => app.rules.length
  | .prompts => app.prompts.length
  | .status | .help => 0

/-- Keep the selection inside the list. -/
def clampSelection (app : App) : App :=
  if app.listLen = 0 then { app with listSelected := 0 }
  else if app.listLen ≤ app.listSelected then { app with listSelected := app.listLen - 1 }
  else app

/-- Append a line. The oldest one goes when there are as many as are kept, and the selection moves
with the lines. -/
def pushAuditLine (app : App) (line : String) : App :=
  let shifted :=
    if app.audit.length = maxAuditLines then
      { app with
        audit := app.audit.tail
        listSelected :=
          if 0 < app.listSelected ∧ app.tab = .events then app.listSelected - 1
          else app.listSelected }
    else app
  { shifted with audit := shifted.audit ++ [line] }.clampSelection

def apply (app : App) : IpcEvent → App
  | .status status => { app with link := .up status }
  | .statsSummary summary => { app with statsSummary := some summary }
  | .down detail => { app with link := .down detail, subscribed := false }
  | .audit record => app.pushAuditLine record.logLine
  | .subscriptionReady => { app with subscribed := true }
  | .rules rules => { app with rules }.clampSelection
  | .prompts prompts => { app with prompts }.clampSelection
  | .processes processes => { app with processes }.clampSelection
  | .actionOk message => { app with statusMessage := some message }
  | .actionError message =>
    { app with
      overlay := .notice ("error: " ++ message)
      statusMessage := some ("error: " ++ message) }

/-! ### Keys -/

def setTab (app : App) (tab : Tab) : App :=
  { app with tab, pane := .list, listSelected := 0 }.clampSelection

def nextTab (app : App) : App := app.setTab (Tab.fromIndex (app.tab.index + 1))

def prevTab (app : App) : App :=
  app.setTab (Tab.fromIndex (if app.tab.index = 0 then Tab.all.length - 1 else app.tab.index - 1))

/-- Move the selection, around the ends of the list. -/
def moveList (app : App) (delta : ℤ) : App :=
  if app.listLen = 0 then { app with listSelected := 0 }
  else { app with listSelected := ((app.listSelected + delta) % app.listLen).toNat }

def openAnswerOverlay (app : App) : App × KeyAction :=
  match app.prompts[app.listSelected]? with
  | some prompt =>
    if prompt.canAnswer then ({ app with overlay := .answerPrompt (.new prompt) }, .none)
    else ({ app with overlay := .notice "prompt expired or stale; answer disabled" }, .none)
  | none => (app, .none)

def deleteSelectedRule (app : App) : KeyAction :=
  match app.rules[app.listSelected]? with
  | some rule => .command (.deleteRule rule.id)
  | none => .none

def handleEventsFilterKey (app : App) : KeyCode → App × KeyAction
  | .char 'f' =>
    ({ app with
        eventsFilter := app.eventsFilter.next
        listSelected := 0
        statusMessage := some ("Events filter: " ++ app.eventsFilter.next.label) }, .none)
  | .char 'c' =>
    ({ app with
        eventsFilter := .all
        listSelected := 0
        statusMessage := some "Events filter cleared" }, .none)
  | _ => (app, .none)

/-- A key without an overlay. -/
def handleRootKey (app : App) (code : KeyCode) : App × KeyAction :=
  match code with
  | .char 'q' | .char 'Q' => (app, .quit)
  | .char '?' => ({ app with overlay := .notice "Press Esc to dismiss this overlay." }, .none)
  | .left | .backTab => (app.prevTab, .none)
  | .right | .tab => (app.nextTab, .none)
  | .char '1' => (app.setTab .status, .none)
  | .char '2' => (app.setTab .apps, .none)
  | .char '3' => (app.setTab .rules, .none)
  | .char '4' => (app.setTab .prompts, .none)
  | .char '5' => (app.setTab .events, .none)
  | .char '6' => (app.setTab .help, .none)
  | .char 'h' => (if app.tab.hasSplit then { app with pane := .list } else app, .none)
  | .char 'l' => (if app.tab.hasSplit then { app with pane := .detail } else app, .none)
  | .char 'j' | .down => (if app.pane = .list then app.moveList 1 else app, .none)
  | .char 'k' | .up => (if app.pane = .list then app.moveList (-1) else app, .none)
  | .char 'a' =>
    if app.tab = .rules then ({ app with overlay := .addRule .new }, .none)
    else if app.tab = .prompts then app.openAnswerOverlay
    else (app, .none)
  | .char 'd' => (app, if app.tab = .rules then app.deleteSelectedRule else .none)
  | .char 'r' =>
    (app,
      if app.tab = .rules then .command .refreshRules
      else if app.tab = .prompts then .command .refreshPrompts
      else .none)
  | .enter => if app.tab = .prompts then app.openAnswerOverlay else (app, .none)
  | .char 't' => (if app.tab = .status then { app with overlay := .traffic .new } else app, .none)
  | .char 'b' =>
    (app, if app.tab = .status then .command (.trafficBlock "user" "out") else .none)
  | .char 'B' =>
    (app, if app.tab = .status then .command (.trafficBlock "user" "all") else .none)
  | .char 'u' => (app, if app.tab = .status then .command (.trafficUnblock "user") else .none)
  | .char 'f' | .char 'c' =>
    if app.tab = .events then app.handleEventsFilterKey code else (app, .none)
  | _ => (app, .none)

/-- A key while the form for traffic is open. -/
def handleTrafficOverlayKey (app : App) (form : TrafficForm) (code : KeyCode) : App × KeyAction :=
  match code with
  | .esc => ({ app with overlay := .none }, .none)
  | .enter =>
    match form.toCommand with
    | .ok command => ({ app with overlay := .none }, .command command)
    | .error message => ({ app with overlay := .notice message }, .none)
  | .tab => ({ app with overlay := .traffic { form with scope := form.scope.toggle } }, .none)
  | .left => ({ app with overlay := .traffic { form with direction := form.direction.prev } }, .none)
  | .right | .char 'd' | .char 'D' =>
    ({ app with overlay := .traffic { form with direction := form.direction.next } }, .none)
  | .char 'b' | .char 'B' => ({ app with overlay := .traffic { form with action := .block } }, .none)
  | .char 'u' | .char 'U' =>
    ({ app with overlay := .traffic { form with action := .unblock } }, .none)
  | .char 'a' | .char 'A' =>
    ({ app with overlay := .traffic { form with action := form.action.toggle } }, .none)
  | _ => (app, .none)

/-- A key while the form for a rule is open. -/
def handleAddOverlayKey (app : App) (form : AddRuleForm) (code : KeyCode) : App × KeyAction :=
  match code with
  | .esc => ({ app with overlay := .none }, .none)
  | .enter =>
    match form.toCommand with
    | .ok rule => ({ app with overlay := .none }, .command (.addRule rule))
    | .error message => ({ app with statusMessage := some message }, .none)
  | .tab => ({ app with overlay := .addRule { form with focus := form.focus.next } }, .none)
  | .backTab => ({ app with overlay := .addRule { form with focus := form.focus.prev } }, .none)
  | .backspace => ({ app with overlay := .addRule (form.modifyFocused List.dropLast) }, .none)
  | .char character =>
    if !isControl character then
      ({ app with overlay := .addRule (form.modifyFocused (· ++ [character])) }, .none)
    else (app, .none)
  | _ => (app, .none)

/-- A key while the form for an answer is open. -/
def handleAnswerOverlayKey (app : App) (form : AnswerPromptForm) (code : KeyCode) :
    App × KeyAction :=
  match code with
  | .esc => ({ app with overlay := .none }, .none)
  | .enter =>
    if !form.prompt.canAnswer then
      ({ app with overlay := .notice "prompt expired or stale; actions disabled" }, .none)
    else
      ({ app with overlay := .none },
        .command (.answerPrompt form.prompt.id form.verdict.asStr form.scope.asStr))
  | .char 'a' | .char 'A' =>
    ({ app with overlay := .answerPrompt { form with verdict := .allow } }, .none)
  | .char 'd' | .char 'D' =>
    ({ app with overlay := .answerPrompt { form with verdict := .deny } }, .none)
  | .left | .right =>
    ({ app with overlay := .answerPrompt { form with verdict := form.verdict.toggle } }, .none)
  | .tab => ({ app with overlay := .answerPrompt { form with scope := form.scope.next } }, .none)
  | .backTab =>
    ({ app with overlay := .answerPrompt { form with scope := form.scope.prev } }, .none)
  | _ => (app, .none)

/-- A key, at the root or in an overlay. -/
def handleKey (app : App) (code : KeyCode) : App × KeyAction :=
  match app.overlay with
  | .none => app.handleRootKey code
  | .notice _ =>
    (if code = .esc ∨ code = .enter ∨ code = .char 'q' then { app with overlay := .none } else app,
      .none)
  | .addRule form => app.handleAddOverlayKey form code
  | .answerPrompt form => app.handleAnswerOverlayKey form code
  | .traffic form => app.handleTrafficOverlayKey form code

/-! ### What is drawn -/

/-- The rows of the log around the selected one. -/
def visibleAuditWindow (app : App) (viewportRows : ℕ) : VisibleList :=
  let filtered := app.filteredAudit
  let total := filtered.length
  if total = 0 then { relativeSelected := 0, items := [], start := 0, total := 0 }
  else
    let height := max viewportRows 1
    let selected := min app.listSelected (total - 1)
    let start := if total ≤ height then 0 else min (selected - height / 2) (total - height)
    let stop := min (start + height) total
    { relativeSelected := selected - start
      items := (filtered.drop start).take (stop - start)
      start
      total }

def visibleList (app : App) (viewportRows : ℕ) : VisibleList :=
  match app.tab with
  | .events => app.visibleAuditWindow viewportRows
  | .apps =>
    { relativeSelected := app.listSelected
      items := app.processes.map ProcessRow.listLabel
      start := 0
      total := app.processes.length }
  | .rules =>
    { relativeSelected := app.listSelected
      items := app.rules.map RuleRow.listLabel
      start := 0
      total := app.rules.length }
  | .prompts =>
    { relativeSelected := app.listSelected
      items := app.prompts.map PromptRow.listLabel
      start := 0
      total := app.prompts.length }
  | .status | .help => { relativeSelected := 0, items := [], start := 0, total := 0 }

/-- The row that is drawn as the selected one. -/
def highlighted (app : App) (viewportRows : ℕ) : Option String :=
  (app.visibleList viewportRows).items[(app.visibleList viewportRows).relativeSelected]?

def statusDetailLines (app : App) : List String :=
  match app.link with
  | .connecting => ["ipc waiting  socket=" ++ app.socket, "waiting for daemon…"]
  | .down detail => ["daemon unavailable", "socket=" ++ app.socket, detail]
  | .up status =>
    ["enforcement=" ++ status.enforcement ++ "  observation=" ++ status.observation ++
        "  ipc_version=" ++ decimal status.ipcVersion.toNat,
      "traffic=" ++ status.traffic ++ "  machine=" ++ status.trafficMachine ++ "  user=" ++
        status.trafficUser ++ "  effective=" ++ status.trafficEffective,
      "socket=" ++ app.socket,
      if app.subscribed then "audit subscribe: ready (id=interfire-tui)"
      else "audit subscribe: connecting…",
      "Traffic: t overlay · b/B/u shortcuts · machine via pkexec CLI"]

def processDetailLines (app : App) : List String :=
  match app.processes[app.listSelected]? with
  | none => ["no observed processes yet", "outbound connects fill this list"]
  | some row =>
    ["executable: " ++ row.executable,
      "cmdline: " ++ row.cmdline,
      "pid: " ++ decimal row.pid.toNat ++ "  start_ticks: " ++ decimal row.startTicks.toNat ++
        "  uid: " ++ decimal row.uid.toNat,
      "effective rule: " ++ row.verdict,
      "",
      "recent destinations:"] ++
    if row.ports = "" then ["  (none)"]
    else (row.ports.toList.splitOn '+').map fun destination ↦ "  " ++ String.ofList destination

def ruleDetailLines (app : App) : List String :=
  match app.rules[app.listSelected]? with
  | none => ["no rules loaded", "a add · r refresh"]
  | some rule =>
    ["id: " ++ decimal rule.id.toNat,
      "executable: " ++ rule.executable,
      "verdict: " ++ rule.verdict,
      "port: " ++ decimal rule.port.toNat,
      "",
      "a add · d delete · r refresh"]

def promptDetailLines (app : App) : List String :=
  match app.prompts[app.listSelected]? with
  | none => ["no pending prompts", "r refresh"]
  | some prompt =>
    ["id: " ++ decimal prompt.id.toNat,
      "path: " ++ prompt.executable,
      "dest: " ++ prompt.destination ++ ":" ++ decimal prompt.port.toNat ++ " (" ++
        prompt.protocol ++ ")",
      "remaining: " ++ decimal prompt.remainingSecs.toNat ++ "s",
      "",
      if prompt.canAnswer then "a/Enter answer · r refresh" else "expired/stale · answer disabled"]

/-- The detail of the selected line, by its place in the whole log. -/
def eventDetailLines (app : App) : List String :=
  match app.audit[app.listSelected]? with
  | none => ["no audit frame selected"]
  | some line => [line]

end App

def helpLines : List String :=
  ["Tabs: Left/Right or 1..6  (Status Apps Rules Prompts Events Help)",
    "Panes: h list · l detail  (Apps / Rules / Prompts / Events)",
    "List: j/k or Up/Down",
    "Events: f cycles All/Allow/Deny/Prompt · c clears filter · capped 2000",
    "Apps: observed firewall identities (path, pid+start ticks, ports)",
    "Rules: a add · d delete · r refresh",
    "Prompts: a/Enter answer · r refresh",
    "Traffic (Status): t overlay · b user out · B user all · u user unblock",
    "Traffic overlay: Tab scope · Left/Right direction · b/u action · Enter",
    "Machine traffic: pkexec interfirectl … (TUI does not elevate)",
    "Answer overlay: a/d verdict · Tab scope · Enter submit · Esc cancel",
    "Add overlay: Tab fields · Enter submit · Esc cancel",
    "Overlay: ? opens · Esc dismisses (Esc never quits root)",
    "Quit: q"]

def App.detailLines (app : App) : List String :=
  match app.tab with
  | .status => app.statusDetailLines
  | .apps => app.processDetailLines
  | .rules => app.ruleDetailLines
  | .prompts => app.promptDetailLines
  | .events => app.eventDetailLines
  | .help => helpLines

/-! ### Runs -/

/-- What the client is given: an event of its loops, or a key. -/
inductive Input
  | event (event : IpcEvent)
  | key (code : KeyCode)
  deriving DecidableEq, Repr

def App.step (app : App) : Input → App
  | .event event => app.apply event
  | .key code => (app.handleKey code).1

/-- The application after inputs. -/
def App.run (socket : String) (inputs : List Input) : App := inputs.foldl App.step (App.new socket)

namespace App

/-- The selection is the first row, or a row of the list that is shown. -/
def InRange (app : App) : Prop := app.listSelected = 0 ∨ app.listSelected < app.listLen

/-- The lists, what is shown of them and the selection are as before. -/
structure SameLists (before after : App) : Prop where
  audit : after.audit = before.audit
  rules : after.rules = before.rules
  prompts : after.prompts = before.prompts
  processes : after.processes = before.processes
  tab : after.tab = before.tab
  listSelected : after.listSelected = before.listSelected
  eventsFilter : after.eventsFilter = before.eventsFilter

theorem SameLists.refl (app : App) : SameLists app app := ⟨rfl, rfl, rfl, rfl, rfl, rfl, rfl⟩

theorem SameLists.inRange {before after : App} (hsame : SameLists before after)
    (hrange : before.InRange) : after.InRange := by
  have hlen : after.listLen = before.listLen := by
    rw [listLen, listLen, filteredAudit, filteredAudit, hsame.tab, hsame.audit, hsame.rules,
      hsame.prompts, hsame.processes, hsame.eventsFilter]
  rw [InRange, hlen, hsame.listSelected]
  exact hrange

theorem inRange_clampSelection (app : App) : app.clampSelection.InRange := by
  rw [clampSelection]
  split_ifs with hempty hbeyond
  · exact .inl rfl
  · refine .inr ?_
    show app.listLen - 1 < app.listLen
    omega
  · exact .inr (not_le.mp hbeyond)

/-- A selection in range is kept. -/
theorem clampSelection_eq_self {app : App} (hrange : app.InRange) : app.clampSelection = app := by
  rw [InRange] at hrange
  rw [clampSelection]
  split_ifs with hempty hbeyond
  · have hzero : app.listSelected = 0 := by omega
    rw [← hzero]
  · omega
  · rfl

theorem inRange_moveList (app : App) (delta : ℤ) : (app.moveList delta).InRange := by
  rw [moveList]
  split_ifs with hempty
  · exact .inl rfl
  · refine .inr ?_
    show ((app.listSelected + delta) % app.listLen).toNat < app.listLen
    have hnonneg := Int.emod_nonneg (app.listSelected + delta) (Int.natCast_ne_zero.mpr hempty)
    have hlt := Int.emod_lt_of_pos (app.listSelected + delta)
      (Int.natCast_pos.mpr (Nat.pos_of_ne_zero hempty))
    omega

theorem inRange_apply {app : App} (hrange : app.InRange) (event : IpcEvent) :
    (app.apply event).InRange := by
  cases event with
  | audit record => exact inRange_clampSelection _
  | rules rules => exact inRange_clampSelection _
  | prompts prompts => exact inRange_clampSelection _
  | processes processes => exact inRange_clampSelection _
  | _ => exact SameLists.inRange ⟨rfl, rfl, rfl, rfl, rfl, rfl, rfl⟩ hrange

theorem sameLists_openAnswerOverlay (app : App) : SameLists app app.openAnswerOverlay.1 := by
  rw [openAnswerOverlay]
  split
  · split_ifs
    · exact ⟨rfl, rfl, rfl, rfl, rfl, rfl, rfl⟩
    · exact ⟨rfl, rfl, rfl, rfl, rfl, rfl, rfl⟩
  · exact .refl app

theorem sameLists_handleTrafficOverlayKey (app : App) (form : TrafficForm) (code : KeyCode) :
    SameLists app (app.handleTrafficOverlayKey form code).1 := by
  unfold handleTrafficOverlayKey
  split
  case h_2 => split <;> exact ⟨rfl, rfl, rfl, rfl, rfl, rfl, rfl⟩
  all_goals exact ⟨rfl, rfl, rfl, rfl, rfl, rfl, rfl⟩

theorem sameLists_handleAddOverlayKey (app : App) (form : AddRuleForm) (code : KeyCode) :
    SameLists app (app.handleAddOverlayKey form code).1 := by
  unfold handleAddOverlayKey
  split
  case h_2 => split <;> exact ⟨rfl, rfl, rfl, rfl, rfl, rfl, rfl⟩
  case h_6 => split_ifs <;> exact ⟨rfl, rfl, rfl, rfl, rfl, rfl, rfl⟩
  all_goals exact ⟨rfl, rfl, rfl, rfl, rfl, rfl, rfl⟩

theorem sameLists_handleAnswerOverlayKey (app : App) (form : AnswerPromptForm) (code : KeyCode) :
    SameLists app (app.handleAnswerOverlayKey form code).1 := by
  unfold handleAnswerOverlayKey
  split
  case h_2 => split_ifs <;> exact ⟨rfl, rfl, rfl, rfl, rfl, rfl, rfl⟩
  all_goals exact ⟨rfl, rfl, rfl, rfl, rfl, rfl, rfl⟩

theorem inRange_handleEventsFilterKey {app : App} (hrange : app.InRange) (code : KeyCode) :
    (app.handleEventsFilterKey code).1.InRange := by
  unfold handleEventsFilterKey
  split
  · exact .inl rfl
  · exact .inl rfl
  · exact hrange

/-- A choice between two states. Assumes: the selection is in range in both. -/
theorem inRange_ite {first second : App} (condition : Prop) [Decidable condition]
    (hfirst : first.InRange) (hsecond : second.InRange) :
    (if condition then first else second).InRange := by
  split_ifs
  · exact hfirst
  · exact hsecond

theorem inRange_handleRootKey {app : App} (hrange : app.InRange) (code : KeyCode) :
    (app.handleRootKey code).1.InRange := by
  have hkept : ∀ {after : App}, SameLists app after → after.InRange :=
    fun hsame ↦ hsame.inRange hrange
  have htab : ∀ tab, (app.setTab tab, KeyAction.none).1.InRange :=
    fun tab ↦ inRange_clampSelection _
  have hanswer : app.openAnswerOverlay.1.InRange := hkept (sameLists_openAnswerOverlay app)
  unfold handleRootKey prevTab nextTab
  -- The keys in the order of the definition, with an alternative of its own for each.
  split
  case h_1 | h_2 | h_21 | h_22 | h_25 | h_26 | h_27 | h_30 => exact hrange
  case h_3 => exact hkept ⟨rfl, rfl, rfl, rfl, rfl, rfl, rfl⟩
  case h_4 | h_5 | h_6 | h_7 | h_8 | h_9 | h_10 | h_11 | h_12 | h_13 => exact htab _
  case h_14 | h_15 | h_24 =>
    exact inRange_ite _ (hkept ⟨rfl, rfl, rfl, rfl, rfl, rfl, rfl⟩) hrange
  case h_16 | h_17 | h_18 | h_19 => exact inRange_ite _ (inRange_moveList app _) hrange
  case h_20 =>
    split_ifs
    · exact hkept ⟨rfl, rfl, rfl, rfl, rfl, rfl, rfl⟩
    · exact hanswer
    · exact hrange
  case h_23 =>
    split_ifs
    · exact hanswer
    · exact hrange
  case h_28 | h_29 =>
    split_ifs
    · exact inRange_handleEventsFilterKey hrange _
    · exact hrange

theorem inRange_handleKey {app : App} (hrange : app.InRange) (code : KeyCode) :
    (app.handleKey code).1.InRange := by
  unfold handleKey
  split
  · exact inRange_handleRootKey hrange code
  · exact inRange_ite _ (SameLists.inRange ⟨rfl, rfl, rfl, rfl, rfl, rfl, rfl⟩ hrange) hrange
  · exact (sameLists_handleAddOverlayKey app _ code).inRange hrange
  · exact (sameLists_handleAnswerOverlayKey app _ code).inRange hrange
  · exact (sameLists_handleTrafficOverlayKey app _ code).inRange hrange

theorem inRange_step {app : App} (hrange : app.InRange) (input : Input) : (app.step input).InRange := by
  cases input with
  | event event => exact inRange_apply hrange event
  | key code => exact inRange_handleKey hrange code

/-- The selection is in range in every run. -/
theorem inRange_run (socket : String) (inputs : List Input) : (run socket inputs).InRange := by
  rw [run, ← Run.stateAt_length]
  exact Run.stateAt_invariant step (new socket) inputs InRange (.inl rfl)
    (fun app input hrange ↦ inRange_step hrange input) inputs.length

/-- The window of the log shows the selected line of the filtered log. Assumes: the selection is in
range, on the events tab. -/
theorem highlighted_eq {app : App} (hrange : app.InRange) (htab : app.tab = .events)
    (viewportRows : ℕ) : app.highlighted viewportRows = app.filteredAudit[app.listSelected]? := by
  have hlen : app.listLen = app.filteredAudit.length := by rw [listLen, htab]
  rw [InRange, hlen] at hrange
  have hwindow : app.visibleList viewportRows = app.visibleAuditWindow viewportRows := by
    rw [visibleList, htab]
  rw [highlighted, hwindow, visibleAuditWindow]
  by_cases hempty : app.filteredAudit.length = 0
  · rw [if_pos hempty, List.length_eq_zero_iff.mp hempty]
    rfl
  · rw [if_neg hempty]
    have hselected : app.listSelected < app.filteredAudit.length := by omega
    have hmin : min app.listSelected (app.filteredAudit.length - 1) = app.listSelected := by omega
    dsimp only
    rw [hmin]
    -- The window starts at the selected row or before it, and reaches beyond it.
    generalize hstart : (if app.filteredAudit.length ≤ max viewportRows 1 then 0
      else min (app.listSelected - max viewportRows 1 / 2)
        (app.filteredAudit.length - max viewportRows 1)) = start
    have hbefore : start ≤ app.listSelected := by
      split_ifs at hstart <;> omega
    have hwithin : app.listSelected - start < min (start + max viewportRows 1)
        app.filteredAudit.length - start := by
      split_ifs at hstart <;> omega
    rw [List.getElem?_take_of_lt hwithin, List.getElem?_drop, Nat.add_sub_of_le hbefore]

end App

end Terminal

end InterFire
