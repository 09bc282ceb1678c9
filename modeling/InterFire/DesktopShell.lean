import InterFire.ClientRequests
import InterFire.DesktopLog
import InterFire.DesktopTray
import InterFire.Library.Channel
import InterFire.PromptClients

/-!
# The desktop client

At most one window with its application (`App` of `ui/src/app.rs`), the slot through which the tray
menu asks for a confirmation (`ui/src/confirm_queue.rs`), and the tray (`ui/src/tray_host.rs`), whose
thread takes the states that it is told from a queue. The tray outlives the window, and a new window
starts from nothing. The thread of the audit stream, which only subscribes, and the synthetic load of
`--rss-probe` are not part of it.

`confirmed_actions_are_requested` says that every change to the firewall or the service has a request
of its own behind it, from a button or from the tray, and that the window asks for it until it is
confirmed. `tray_lies_iff` says that the tray shows what it was told, in order, and exactly when the
last of it differs from the window: after the window was opened beside a tray that was told another
state than unavailable, until a poll finds the daemon.
-/

set_option autoImplicit false
set_option relaxedAutoImplicit false

namespace InterFire

namespace Shell

open Run

/-! ### Confirmations -/

inductive ConfirmKind
  | rulesPause
  | rulesResume
  | trafficBlock
  | trafficUnblock
  | openTraffic
  | daemonStop
  | daemonStart
  deriving DecidableEq, Repr

/-- What the tray menu asks for. Quitting ends the run. -/
inductive TrayAction
  | show
  | pause
  | resume
  | openTraffic
  | daemonStop
  | daemonStart
  deriving DecidableEq, Repr

/-- The confirmation that a tray action asks for. -/
def TrayAction.kind : TrayAction → Option ConfirmKind
  | .show => none
  | .pause => some .rulesPause
  | .resume => some .rulesResume
  | .openTraffic => some .openTraffic
  | .daemonStop => some .daemonStop
  | .daemonStart => some .daemonStart

/-- The sections of the main window. -/
inductive Section
  | events
  | daemon
  | rules
  | hosts
  | applications
  | addresses
  | ports
  | users
  | traffic
  | network
  | profiling
  | preferences
  deriving DecidableEq, Repr

/-! ### The application -/

structure AddRuleFormState where
  verdict : RuleVerdict
  error : Option String
  deriving DecidableEq, Repr

structure App where
  «section» : Section
  socket : String
  link : DaemonLink
  trayState : TrayState
  prompts : List PromptRow
  rules : List RuleRow
  selectedRule : Option UInt64
  rulesMessage : Option String
  addForm : Option AddRuleFormState
  processes : List ProcessRow
  selectedProcess : Option (UInt32 × UInt64)
  viewerMessage : Option String
  network : Option NetworkStatus
  networkMessage : Option String
  alert : Option ConnectionAlert
  log : LogBuffer
  trafficScopeMachine : Bool
  trafficDirection : String
  fwConfirm : Option ConfirmKind
  statsSummary : Option StatsSummary
  stats : StatsKind → List StatsRow

namespace App

def new (socket : String) : App :=
  { «section» := .events
    socket
    link := .down "connecting"
    trayState := .fromLink (.down "connecting")
    prompts := []
    rules := []
    selectedRule := none
    rulesMessage := none
    addForm := none
    processes := []
    selectedProcess := none
    viewerMessage := none
    network := none
    networkMessage := none
    alert := none
    log := .new
    trafficScopeMachine := false
    trafficDirection := "out"
    fwConfirm := none
    statsSummary := none
    stats := fun _ ↦ [] }

/-- Take the events of the audit stream into the log. -/
def drainAuditEvents (app : App) (events : List AuditEvent) : App :=
  { app with
    log := events.foldl (fun log event ↦
      match event with
      | .ready => log.setSubscribed true
      | .record record => log.pushLine record
      | .down _ => log.setSubscribed false) app.log }

/-- Take what the tray menu asks for. -/
def takeConfirm (app : App) (pending : Option ConfirmKind) : App :=
  match pending with
  | none => app
  | some .openTraffic => { app with «section» := .traffic }
  | some kind => { app with fwConfirm := some kind }

/-- Take what a poll has read. A selection that is not among the rows is dropped. -/
def takeSnapshot (app : App) (snapshot : PollSnapshot) : App :=
  { app with
    link := snapshot.link
    trayState := .fromLink snapshot.link
    prompts := snapshot.prompts
    rules := snapshot.rules
    processes := snapshot.processes
    network := snapshot.network
    statsSummary := snapshot.statsSummary
    stats := snapshot.stats
    selectedRule := app.selectedRule.filter fun id ↦ snapshot.rules.any (·.id = id)
    selectedProcess := app.selectedProcess.filter fun key ↦
      snapshot.processes.any fun row ↦ row.pid = key.1 && row.startTicks = key.2
    alert := ConnectionAlert.advance app.alert snapshot.prompts }

end App

/-- What the socket and the audit stream have for the application when it polls. -/
structure Polled where
  events : List AuditEvent
  replies : PollReplies

/-! ### Changes -/

/-- What the application sends: a line to the daemon, or a command for `pkexec`. -/
inductive Sent
  | line (frame : String)
  | pkexec (arguments : List String)
  deriving DecidableEq, Repr

/-- The buttons that ask for a confirmation. -/
inductive ConfirmButton
  | pause
  | resume
  | trafficBlock
  | trafficUnblock
  | daemonStop
  | daemonStart
  deriving DecidableEq, Repr

def ConfirmButton.kind : ConfirmButton → ConfirmKind
  | pause => .rulesPause
  | resume => .rulesResume
  | trafficBlock => .trafficBlock
  | trafficUnblock => .trafficUnblock
  | daemonStop => .daemonStop
  | daemonStart => .daemonStart

namespace App

/-- `request_pause_confirm` and the others: every button puts its own kind into the slot. -/
def requestConfirm (app : App) (button : ConfirmButton) : App :=
  { app with fwConfirm := some button.kind }

def pauseFirewall : Sent × String := (.line "v1 pause\n", "rules paused")

def resumeFirewall : Sent × String :=
  (.line "v1 resume\n", "rules started (stop other queue firewalls first if present)")

/-- The scope and the direction are those of the panel when the action is confirmed. -/
def blockTraffic (app : App) : Sent × String :=
  if app.trafficScopeMachine then
    (.pkexec ["interfirectl", "--socket=" ++ app.socket, "traffic", "block", "--scope=machine",
      "--direction=" ++ app.trafficDirection], "traffic blocked (machine)")
  else
    (.line ("v1 traffic-block scope=user direction=" ++ app.trafficDirection ++ "\n"),
      "traffic blocked (user)")

def unblockTraffic (app : App) : Sent × String :=
  (if app.trafficScopeMachine then
    .pkexec ["interfirectl", "--socket=" ++ app.socket, "traffic", "unblock", "--scope=machine"]
    else .line "v1 traffic-unblock scope=user\n", "traffic unblocked")

def stopDaemon : Sent × String :=
  (.pkexec ["systemctl", "stop", "interfired.service"],
    "daemon stop requested (Traffic Block may remain in kernel)")

def startDaemon : Sent × String :=
  (.pkexec ["systemctl", "start", "interfired.service"], "daemon start requested")

/-- What a confirmation sends, with the message of its success. -/
def confirmedAction (app : App) : ConfirmKind → Option (Sent × String)
  | .rulesPause => some pauseFirewall
  | .rulesResume => some resumeFirewall
  | .trafficBlock => some app.blockTraffic
  | .trafficUnblock => some app.unblockTraffic
  | .daemonStop => some stopDaemon
  | .daemonStart => some startDaemon
  | .openTraffic => none

end App

/-- The buttons of the network section. They ask for no confirmation. -/
inductive NetworkButton
  | install
  | remove
  deriving DecidableEq, Repr

/-- What a button of the network section sends, with the message of its success. -/
def NetworkButton.action : NetworkButton → Sent × String
  | install => (.line "v1 network-install\n", "installed InterFire nftables table")
  | remove => (.line "v1 network-remove\n", "removed InterFire nftables table")

/-! ### The client -/

/-- The state that the tray shows, and those that it was told and has not handled yet. -/
structure TrayHost where
  shown : TrayState
  told : List TrayState

namespace TrayHost

def setState (tray : TrayHost) (state : TrayState) : TrayHost :=
  { tray with told := tray.told ++ [state] }

/-- The thread of the tray handles the state that it was told first. -/
def handle (tray : TrayHost) : TrayHost :=
  match tray.told with
  | [] => tray
  | state :: rest => ⟨state, rest⟩

/-- The state that the tray was told last, or shows when it has handled all. -/
def last (tray : TrayHost) : TrayState := tray.told.getLast?.getD tray.shown

@[simp] theorem last_setState (tray : TrayHost) (state : TrayState) :
    (tray.setState state).last = state := by
  rw [last, setState, List.getLast?_concat, Option.getD_some]

@[simp] theorem last_handle (tray : TrayHost) : tray.handle.last = tray.last := by
  rw [handle]
  split
  · rfl
  · next state rest htold =>
    rw [last, last, htold, List.getLast?_cons, Option.getD_some]

end TrayHost

/-- The client. The tray may be missing. -/
structure Client where
  socket : String
  window : Option App
  pending : Option ConfirmKind
  tray : Option TrayHost

/-- A tray action, a step of the thread of the tray, a poll, a click, or the end of the window. What is
sent is answered with a result, and a success is followed by a poll. -/
inductive ShellOp
  | trayAction (action : TrayAction)
  | trayCommand
  | closeWindow
  | poll (polled : Polled)
  | requestConfirm (button : ConfirmButton)
  | cancelConfirm
  | confirm (result : Except String Unit) (polled : Polled)
  | network (button : NetworkButton) (result : Except String Unit) (polled : Polled)
  | refreshNetworkStatus (polled : Polled)
  | select («section» : Section)
  | setTrafficScope (machine : Bool)
  | setTrafficDirection (direction : String)
  | selectRule (id : UInt64)
  | selectProcess (pid : UInt32) (startTicks : UInt64)
  | selectLogRow (index : ℕ)
  | beginAddRule
  | cancelAddRule
  | setAddVerdict (verdict : RuleVerdict)
  | submitAddRule (id executable port : String) (result : Except String Unit) (polled : Polled)
  | deleteSelectedRule (result : Except String Unit) (polled : Polled)
  | setScope (scope : AlertScope)
  | toggleDetails
  | submitVerdict (verdict : AlertVerdict) (result : Except String Unit) (polled : Polled)

/-- What an operation of the window sends to change something. -/
def App.change (app : App) : ShellOp → Option Sent
  | .confirm _ _ =>
    (app.fwConfirm.bind ({ app with fwConfirm := none } : App).confirmedAction).map Prod.fst
  | .network button _ _ => some button.action.1
  | .submitAddRule id executable port _ _ =>
    app.addForm.bind fun form ↦
      (validateNewRule id executable form.verdict port).toOption.map fun rule ↦ .line rule.frame
  | .deleteSelectedRule _ _ =>
    app.selectedRule.map fun id ↦ .line ("v1 rule-delete " ++ decimal id.toNat ++ "\n")
  | .submitVerdict verdict _ _ =>
    (app.alert.bind (·.answerFrame verdict)).map fun (id, answer, scope) ↦
      .line ("v1 prompt-answer " ++ decimal id.toNat ++ " " ++ answer ++ " " ++ scope ++ "\n")
  | _ => none

namespace Client

/-- The window opens with the client. -/
def start (socket : String) (hasTray : Bool) : Client :=
  { socket
    window := some (.new socket)
    pending := none
    tray := if hasTray then some ⟨.unavailable, []⟩ else none }

def withApp (client : Client) (app : App) : Client := { client with window := some app }

/-- `refresh_from_daemon`: the confirmation that is asked for, the log, the poll, and the tray, which is
told only of a change. -/
def refreshFromDaemon (client : Client) (app : App) (polled : Polled) : Client :=
  let refreshed := ((app.takeConfirm client.pending).drainAuditEvents polled.events).takeSnapshot
    (pollSnapshot polled.replies)
  { client with
    window := some refreshed
    pending := none
    tray :=
      if refreshed.trayState ≠ app.trayState then client.tray.map (·.setState refreshed.trayState)
      else client.tray }

/-- Show the answer to what was sent: its success and a poll, or its failure. -/
def answered (client : Client) (result : Except String Unit) (polled : Polled) (success : App)
    (failure : String → App) : Client :=
  match result with
  | .ok () => client.refreshFromDaemon success polled
  | .error message => client.withApp (failure message)

/-- Confirm what the slot asks for. The slot is emptied first. -/
def confirmFwAction (client : Client) (app : App) (result : Except String Unit) (polled : Polled) :
    Client :=
  let cleared := { app with fwConfirm := none }
  match app.fwConfirm.bind cleared.confirmedAction with
  | none => client.withApp cleared
  | some (_, success) =>
    client.answered result polled { cleared with networkMessage := some success }
      fun message ↦ { cleared with networkMessage := some message }

/-- Send the rule of the form. -/
def submitAddRule (client : Client) (app : App) (id executable port : String)
    (result : Except String Unit) (polled : Polled) : Client :=
  match app.addForm with
  | none => client
  | some form =>
    let failed := fun message ↦ { app with addForm := some { form with error := some message } }
    match validateNewRule id executable form.verdict port with
    | .error message => client.withApp (failed message)
    | .ok rule =>
      client.answered result polled
        { app with
          addForm := none
          selectedRule := some rule.id
          rulesMessage := some ("added rule " ++ decimal rule.id.toNat) } failed

def deleteSelectedRule (client : Client) (app : App) (result : Except String Unit)
    (polled : Polled) : Client :=
  match app.selectedRule with
  | none => client
  | some id =>
    client.answered result polled
      { app with
        selectedRule := none
        rulesMessage := some ("deleted rule " ++ decimal id.toNat) }
      fun message ↦ { app with rulesMessage := some message }

def submitVerdict (client : Client) (app : App) (verdict : AlertVerdict)
    (result : Except String Unit) (polled : Polled) : Client :=
  match app.alert.bind (·.answerFrame verdict) with
  | none => client
  | some _ =>
    client.answered result polled { app with alert := none } fun message ↦
      { app with alert := app.alert.map fun alert ↦ { alert with statusMessage := some message } }

/-- An operation of the window. -/
def stepApp (client : Client) (app : App) : ShellOp → Client
  | .trayAction _ | .trayCommand | .closeWindow => client
  | .poll polled => client.refreshFromDaemon app polled
  | .requestConfirm button => client.withApp (app.requestConfirm button)
  | .cancelConfirm => client.withApp { app with fwConfirm := none }
  | .confirm result polled => client.confirmFwAction app result polled
  | .network button result polled =>
    client.answered result polled { app with networkMessage := some button.action.2 }
      fun message ↦ { app with networkMessage := some message }
  | .refreshNetworkStatus polled =>
    client.refreshFromDaemon { app with networkMessage := none } polled
  | .select «section» => client.withApp { app with «section» }
  | .setTrafficScope machine => client.withApp { app with trafficScopeMachine := machine }
  | .setTrafficDirection direction => client.withApp { app with trafficDirection := direction }
  | .selectRule id => client.withApp { app with selectedRule := some id }
  | .selectProcess pid startTicks =>
    client.withApp { app with selectedProcess := some (pid, startTicks), viewerMessage := none }
  | .selectLogRow index => client.withApp { app with log := app.log.select index }
  | .beginAddRule =>
    if app.addForm.isSome then client
    else client.withApp { app with addForm := some ⟨.deny, none⟩, rulesMessage := none }
  | .cancelAddRule => client.withApp { app with addForm := none }
  | .setAddVerdict verdict =>
    client.withApp { app with addForm := app.addForm.map fun form ↦ { form with verdict } }
  | .submitAddRule id executable port result polled =>
    client.submitAddRule app id executable port result polled
  | .deleteSelectedRule result polled => client.deleteSelectedRule app result polled
  | .setScope scope =>
    client.withApp { app with alert := app.alert.map fun alert ↦ { alert with scope } }
  | .toggleDetails =>
    client.withApp { app with alert := app.alert.map fun alert ↦
      { alert with detailsOpen := !alert.detailsOpen } }
  | .submitVerdict verdict result polled => client.submitVerdict app verdict result polled

/-- An operation of the client. A tray action opens the window when there is none. -/
def step (client : Client) : ShellOp → Client
  | .trayAction action =>
    { client with
      window := some (client.window.getD (.new client.socket))
      pending := action.kind.or client.pending }
  | .trayCommand => { client with tray := client.tray.map TrayHost.handle }
  | .closeWindow => { client with window := none }
  | op => client.window.elim client fun app ↦ client.stepApp app op

/-- What an operation sends to change something. -/
def change (client : Client) (op : ShellOp) : Option Sent := client.window.bind (·.change op)

/-- The poll that an operation makes: one of its own, or the one after the success of a change. -/
def polls (client : Client) (op : ShellOp) : Option Polled :=
  match op with
  | .poll polled | .refreshNetworkStatus polled => client.window.map fun _ ↦ polled
  | .confirm result polled | .network _ result polled | .submitAddRule _ _ _ result polled
  | .deleteSelectedRule result polled | .submitVerdict _ result polled =>
    (client.change op).bind fun _ ↦ result.toOption.map fun _ ↦ polled
  | _ => none

/-- What an operation sends: its change, and then the requests of its poll. -/
def sends (client : Client) (op : ShellOp) : List Sent :=
  (client.change op).toList ++
    (client.polls op).toList.flatMap fun polled ↦ polled.replies.requests.map Sent.line

/-- The confirmation that the window asks for. -/
def asked (client : Client) : Option ConfirmKind := client.window.bind App.fwConfirm

end Client

/-! ### What an operation does -/

/-- What an operation of the window makes of the slot, before a poll. -/
def ShellOp.asks : ShellOp → Option ConfirmKind → Option ConfirmKind
  | .requestConfirm button, _ => some button.kind
  | .cancelConfirm, _ | .confirm _ _, _ => none
  | _, slot => slot

def ShellOp.isConfirm : ShellOp → Bool
  | .confirm _ _ => true
  | _ => false

/-- What an operation of the window leaves alone in the application, before a poll. -/
structure Touched (op : ShellOp) (app touched : App) : Prop where
  link : touched.link = app.link
  trayState : touched.trayState = app.trayState
  fwConfirm : touched.fwConfirm = op.asks app.fwConfirm

/-- An operation touches the application, and may be followed by the poll that it makes. -/
def Follows (client : Client) (op : ShellOp) (app : App) (after : Client) : Prop :=
  ∃ touched, Touched op app touched ∧
    ((client.polls op = none ∧ after = client.withApp touched) ∨
      ∃ polled, client.polls op = some polled ∧ after = client.refreshFromDaemon touched polled)

theorem Client.change_eq {client : Client} {app : App} (hwindow : client.window = some app)
    (op : ShellOp) : client.change op = app.change op := by
  rw [change, hwindow, Option.bind_some]

/-- The poll of an operation that sends a change comes after its success. -/
def ShellOp.PollsAfter (op : ShellOp) (result : Except String Unit) (polled : Polled) : Prop :=
  ∀ client : Client,
    client.polls op = (client.change op).bind fun _ ↦ result.toOption.map fun _ ↦ polled

/-- An operation that shows an answer touches the application, and a success is followed by a poll.
Assumes: the window is open, the operation sends a change, and both outcomes touch the application
only. -/
theorem follows_answered {client : Client} {op : ShellOp} {app success : App} {failure : String → App}
    {sent : Sent} {result : Except String Unit} {polled : Polled}
    (hwindow : client.window = some app) (hpolls : op.PollsAfter result polled)
    (hchange : app.change op = some sent) (hsuccess : Touched op app success)
    (hfailure : ∀ message, Touched op app (failure message)) :
    Follows client op app (client.answered result polled success failure) := by
  have hafter := hpolls client
  rw [client.change_eq hwindow, hchange, Option.bind_some] at hafter
  cases result with
  | ok done => exact ⟨success, hsuccess, .inr ⟨polled, hafter, rfl⟩⟩
  | error message => exact ⟨failure message, hfailure message, .inl ⟨hafter, rfl⟩⟩

/-- An operation that sends no change makes no poll after it. Assumes: the window is open. -/
theorem polls_of_no_change {client : Client} {op : ShellOp} {app : App}
    {result : Except String Unit} {polled : Polled} (hwindow : client.window = some app)
    (hpolls : op.PollsAfter result polled) (hchange : app.change op = none) :
    client.polls op = none := by
  rw [hpolls, client.change_eq hwindow, hchange, Option.bind_none]

theorem Client.withApp_self {client : Client} {app : App} (hwindow : client.window = some app) :
    client.withApp app = client := by
  rw [withApp, ← hwindow]

/-- An operation that leaves the client alone. Assumes: the window is open, and the operation neither
asks for anything nor polls. -/
theorem follows_self {client : Client} {op : ShellOp} {app : App} (hwindow : client.window = some app)
    (hasks : op.asks app.fwConfirm = app.fwConfirm) (hpolls : client.polls op = none) :
    Follows client op app client :=
  ⟨app, ⟨rfl, rfl, hasks.symm⟩, .inl ⟨hpolls, (Client.withApp_self hwindow).symm⟩⟩

section Handlers

variable {client : Client} {app : App} (hwindow : client.window = some app)
  (result : Except String Unit) (polled : Polled)

include hwindow

theorem follows_confirmFwAction :
    Follows client (.confirm result polled) app (client.confirmFwAction app result polled) := by
  have hpolls : (ShellOp.confirm result polled).PollsAfter result polled := fun _ ↦ rfl
  unfold Client.confirmFwAction
  dsimp only
  split
  · next hnone =>
    have hchange : app.change (.confirm result polled) = none := by
      rw [App.change, hnone, Option.map_none]
    refine ⟨_, ?_, .inl ⟨polls_of_no_change hwindow hpolls hchange, rfl⟩⟩
    exact ⟨rfl, rfl, rfl⟩
  · next sent success hsent =>
    have hchange : app.change (.confirm result polled) = some sent := by
      rw [App.change, hsent, Option.map_some]
    refine follows_answered hwindow hpolls hchange ?_ fun message ↦ ?_ <;> exact ⟨rfl, rfl, rfl⟩

theorem follows_submitAddRule (id executable port : String) :
    Follows client (.submitAddRule id executable port result polled) app
      (client.submitAddRule app id executable port result polled) := by
  have hpolls : (ShellOp.submitAddRule id executable port result polled).PollsAfter result
      polled := fun _ ↦ rfl
  unfold Client.submitAddRule
  dsimp only
  split
  · next hform =>
    refine follows_self hwindow rfl (polls_of_no_change hwindow hpolls ?_)
    rw [App.change, hform, Option.bind_none]
  · next form hform =>
    have hvalidated : app.change (.submitAddRule id executable port result polled) =
        (validateNewRule id executable form.verdict port).toOption.map
          fun rule ↦ .line rule.frame := by
      rw [App.change, hform, Option.bind_some]
    split
    · next message hrule =>
      have hchange : app.change (.submitAddRule id executable port result polled) = none := by
        rw [hvalidated, hrule]
        rfl
      refine ⟨_, ?_, .inl ⟨polls_of_no_change hwindow hpolls hchange, rfl⟩⟩
      exact ⟨rfl, rfl, rfl⟩
    · next rule hrule =>
      have hchange : app.change (.submitAddRule id executable port result polled) =
          some (.line rule.frame) := by
        rw [hvalidated, hrule]
        rfl
      refine follows_answered hwindow hpolls hchange ?_ fun message ↦ ?_ <;> exact ⟨rfl, rfl, rfl⟩

theorem follows_deleteSelectedRule :
    Follows client (.deleteSelectedRule result polled) app
      (client.deleteSelectedRule app result polled) := by
  have hpolls : (ShellOp.deleteSelectedRule result polled).PollsAfter result polled := fun _ ↦ rfl
  unfold Client.deleteSelectedRule
  split
  · next hnone =>
    refine follows_self hwindow rfl (polls_of_no_change hwindow hpolls ?_)
    rw [App.change, hnone, Option.map_none]
  · next id hid =>
    have hchange := congrArg (Option.map fun id : UInt64 ↦
      Sent.line ("v1 rule-delete " ++ decimal id.toNat ++ "\n")) hid
    refine follows_answered hwindow hpolls hchange ?_ fun message ↦ ?_ <;> exact ⟨rfl, rfl, rfl⟩

theorem follows_submitVerdict (verdict : AlertVerdict) :
    Follows client (.submitVerdict verdict result polled) app
      (client.submitVerdict app verdict result polled) := by
  have hpolls : (ShellOp.submitVerdict verdict result polled).PollsAfter result polled :=
    fun _ ↦ rfl
  unfold Client.submitVerdict
  split
  · next hnone =>
    refine follows_self hwindow rfl (polls_of_no_change hwindow hpolls ?_)
    rw [App.change, hnone, Option.map_none]
  · next answer hanswer =>
    obtain ⟨sent, hchange⟩ : ∃ sent, app.change (.submitVerdict verdict result polled) =
        some sent := by
      rw [App.change, hanswer, Option.map_some]
      exact ⟨_, rfl⟩
    refine follows_answered hwindow hpolls hchange ?_ fun message ↦ ?_ <;> exact ⟨rfl, rfl, rfl⟩

/-- An operation of the window touches the application, and may be followed by a poll. Assumes: the
window is open. -/
theorem follows_stepApp (op : ShellOp) : Follows client op app (client.stepApp app op) := by
  have hsome : ∀ polled : Polled, client.window.map (fun _ ↦ polled) = some polled :=
    fun polled ↦ by rw [hwindow, Option.map_some]
  cases op with
  | trayAction _ | trayCommand | closeWindow => exact follows_self hwindow rfl rfl
  | poll polled => exact ⟨app, ⟨rfl, rfl, rfl⟩, .inr ⟨polled, hsome polled, rfl⟩⟩
  | refreshNetworkStatus polled =>
    refine ⟨_, ?_, .inr ⟨polled, hsome polled, rfl⟩⟩
    exact ⟨rfl, rfl, rfl⟩
  | requestConfirm _ | cancelConfirm | select _ | setTrafficScope _ | setTrafficDirection _
  | selectRule _ | selectProcess _ _ | selectLogRow _ | cancelAddRule | setAddVerdict _ | setScope _
  | toggleDetails =>
    refine ⟨_, ?_, .inl ⟨rfl, rfl⟩⟩
    exact ⟨rfl, rfl, rfl⟩
  | network button result polled =>
    refine follows_answered hwindow (fun _ ↦ rfl) rfl ?_ fun message ↦ ?_ <;> exact ⟨rfl, rfl, rfl⟩
  | beginAddRule =>
    show Follows _ _ _ (if app.addForm.isSome then client else _)
    split
    · exact follows_self hwindow rfl rfl
    · refine ⟨_, ?_, .inl ⟨rfl, rfl⟩⟩
      exact ⟨rfl, rfl, rfl⟩
  | confirm result polled => exact follows_confirmFwAction hwindow result polled
  | submitAddRule id executable port result polled =>
    exact follows_submitAddRule hwindow result polled id executable port
  | deleteSelectedRule result polled => exact follows_deleteSelectedRule hwindow result polled
  | submitVerdict verdict result polled => exact follows_submitVerdict hwindow result polled verdict

end Handlers

/-- What an operation of the client does: a tray action, a step of the thread of the tray, the end of
the window, nothing without a window, or a touch of the application and perhaps a poll. -/
theorem Client.step_cases (client : Client) (op : ShellOp) :
    (∃ action, op = .trayAction action) ∨ op = .trayCommand ∨ op = .closeWindow ∨
      (client.window = none ∧ client.step op = client) ∨
      ∃ app, client.window = some app ∧ Follows client op app (client.step op) := by
  by_cases htray : ∃ action, op = .trayAction action
  · exact .inl htray
  by_cases hcommand : op = .trayCommand
  · exact .inr (.inl hcommand)
  by_cases hclose : op = .closeWindow
  · exact .inr (.inr (.inl hclose))
  have hstep : client.step op = client.window.elim client fun app ↦ client.stepApp app op := by
    cases op with
    | trayAction action => exact absurd ⟨action, rfl⟩ htray
    | trayCommand => exact absurd rfl hcommand
    | closeWindow => exact absurd rfl hclose
    | _ => rfl
  cases hwindow : client.window with
  | none => exact .inr (.inr (.inr (.inl ⟨rfl, by rw [hstep, hwindow]; rfl⟩)))
  | some app =>
    have hsome : client.step op = client.stepApp app op := by rw [hstep, hwindow]; rfl
    exact .inr (.inr (.inr (.inr ⟨app, rfl, hsome ▸ follows_stepApp hwindow op⟩)))

/-! ### The slots of the confirmations -/

theorem App.fwConfirm_takeConfirm (app : App) (pending : Option ConfirmKind) :
    (app.takeConfirm pending).fwConfirm = (pending.filter (· ≠ .openTraffic)).or app.fwConfirm := by
  cases pending with
  | none => rfl
  | some kind => cases kind <;> rfl

namespace Client

/-- What a poll takes from the slot of the tray. -/
def taken (client : Client) (op : ShellOp) : Option ConfirmKind :=
  if (client.step op).pending = none then client.pending.filter (· ≠ .openTraffic) else none

/-- What an operation makes the window ask for. -/
def offered (client : Client) (op : ShellOp) : Option ConfirmKind :=
  (client.taken op).or (client.window.bind fun _ ↦ op.asks none)

/-- The operation ends what the window asks for. -/
def ended (client : Client) (op : ShellOp) : Bool :=
  op.isConfirm || (client.step op).asked ≠ client.asked

theorem asked_refreshFromDaemon (client : Client) (app : App) (polled : Polled) :
    (client.refreshFromDaemon app polled).asked =
      (client.pending.filter (· ≠ .openTraffic)).or app.fwConfirm :=
  App.fwConfirm_takeConfirm app client.pending

/-- Only a poll takes from the slot of the tray. Assumes: the operation leaves the slot alone. -/
theorem taken_of_pending_eq {client : Client} {op : ShellOp}
    (hpending : (client.step op).pending = client.pending) : client.taken op = none := by
  rw [taken, hpending]
  split
  · next hnone => rw [hnone]; rfl
  · rfl

/-- What the window asks for after an operation: what a poll takes, or else what the operation makes
of the slot. Assumes: the window is not closed. -/
theorem asked_step {client : Client} {op : ShellOp} (hopen : op ≠ .closeWindow) :
    (client.step op).asked =
      (client.taken op).or (client.window.bind fun app ↦ op.asks app.fwConfirm) := by
  rcases client.step_cases op with ⟨action, rfl⟩ | rfl | rfl | ⟨hwindow, hsame⟩ |
    ⟨app, hwindow, touched, htouched, hafter⟩
  · have htaken : client.taken (.trayAction action) = none := by
      rw [taken]
      split
      · next hnone =>
        have hor : action.kind.or client.pending = none := hnone
        rw [(Option.or_eq_none_iff.mp hor).2]
        rfl
      · rfl
    rw [htaken, asked, step]
    cases client.window <;> rfl
  · rw [taken_of_pending_eq rfl, asked, step]
    cases client.window <;> rfl
  · exact absurd rfl hopen
  · rw [taken_of_pending_eq (by rw [hsame]), hsame, asked, hwindow]
    rfl
  · rw [hwindow, Option.bind_some, ← htouched.fwConfirm]
    rcases hafter with ⟨_, hafter⟩ | ⟨polled, _, hafter⟩
    · rw [taken_of_pending_eq (by rw [hafter]; rfl), hafter]
      rfl
    · have htaken : client.taken op = client.pending.filter (· ≠ .openTraffic) := by
        rw [taken, hafter]
        exact if_pos rfl
      rw [htaken, hafter, asked_refreshFromDaemon]

/-- What the window asks for is offered by the operation, or was asked for and does not end. Assumes:
it is asked for after the operation. -/
theorem offered_or_kept {client : Client} {op : ShellOp} {kind : ConfirmKind}
    (hasked : (client.step op).asked = some kind) :
    client.offered op = some kind ∨ (client.asked = some kind ∧ client.ended op = false) := by
  have hopen : op ≠ .closeWindow := by
    rintro rfl
    cases hasked
  have hafter := hasked
  rw [asked_step hopen] at hafter
  rcases Option.or_eq_some_iff.mp hafter with htaken | ⟨htaken, hslot⟩
  · left
    rw [offered, htaken]
    rfl
  obtain ⟨app, hwindow, hasks⟩ := Option.bind_eq_some_iff.mp hslot
  by_cases hpressed : op.asks none = some kind
  · left
    rw [offered, htaken, hwindow]
    exact hpressed
  · -- The operation leaves the slot alone.
    have hslot' : app.fwConfirm = some kind ∧ op.isConfirm = false := by
      cases op <;> first | exact absurd hasks hpressed | exact ⟨hasks, rfl⟩
    have hbefore : client.asked = some kind := by
      rw [asked, hwindow]
      exact hslot'.1
    refine .inr ⟨hbefore, ?_⟩
    rw [ended, hslot'.2, hasked, hbefore]
    simp

/-- What is pending after an operation. -/
theorem pending_step {client : Client} {op : ShellOp} {kind : ConfirmKind}
    (hpending : (client.step op).pending = some kind) :
    (∃ action, op = .trayAction action ∧ action.kind = some kind) ∨
      (client.pending = some kind ∧ client.taken op = none) := by
  have htaken : client.taken op = none := by
    rw [taken, hpending]
    exact if_neg nofun
  rcases client.step_cases op with ⟨action, rfl⟩ | rfl | rfl | ⟨_, hsame⟩ |
    ⟨_, _, touched, _, ⟨_, hafter⟩ | ⟨polled, _, hafter⟩⟩
  · have hor : action.kind.or client.pending = some kind := hpending
    rcases Option.or_eq_some_iff.mp hor with hkind | ⟨_, hbefore⟩
    · exact .inl ⟨action, rfl, hkind⟩
    · exact .inr ⟨hbefore, htaken⟩
  · exact .inr ⟨hpending, htaken⟩
  · exact .inr ⟨hpending, htaken⟩
  · rw [hsame] at hpending
    exact .inr ⟨hpending, htaken⟩
  · rw [hafter] at hpending
    exact .inr ⟨hpending, htaken⟩
  · rw [hafter] at hpending
    cases hpending

theorem pending_of_taken {client : Client} {op : ShellOp} {kind : ConfirmKind}
    (htaken : client.taken op = some kind) : client.pending = some kind := by
  rw [taken] at htaken
  split at htaken
  · exact (Option.filter_eq_some_iff.mp htaken).1
  · cases htaken

/-- The slot of the window as a ledger. What is asked for is used up when it ends. -/
def askedLedger : Ledger Client ShellOp Unit ConfirmKind where
  step := step
  held client _ := client.asked
  granted client op := (client.offered op).map ((), ·)
  consumed client op := if client.asked.isSome ∧ client.ended op then some () else none
  held_step := by
    intro client op key kind hheld
    rcases offered_or_kept hheld with hoffered | ⟨hbefore, hkept⟩
    · exact .inl (by rw [hoffered]; rfl)
    · refine .inr ⟨hbefore, ?_⟩
      rw [if_neg fun hconsumed ↦ by simp [hkept] at hconsumed]
      exact nofun
  held_of_consumed := by
    intro client op key hconsumed
    split at hconsumed
    · next hended => exact Option.isSome_iff_exists.mp hended.1
    · cases hconsumed

/-- The slot of the tray as a ledger. A tray action grants, and a poll consumes. -/
def pendingLedger : Ledger Client ShellOp Unit ConfirmKind where
  step := step
  held client _ := client.pending
  granted _ op :=
    match op with
    | .trayAction action => action.kind.map ((), ·)
    | _ => none
  consumed client op := (client.taken op).map fun _ ↦ ()
  held_step := by
    intro client op key kind hheld
    rcases pending_step hheld with ⟨action, rfl, hkind⟩ | ⟨hbefore, htaken⟩
    · left
      show action.kind.map ((), ·) = some ((), kind)
      rw [hkind]
      rfl
    · exact .inr ⟨hbefore, by rw [htaken]; exact nofun⟩
  held_of_consumed := by
    intro client op key hconsumed
    obtain ⟨kind, htaken, _⟩ := Option.map_eq_some_iff.mp hconsumed
    exact ⟨kind, pending_of_taken htaken⟩

end Client

/-! ### Confirmed actions -/

section Confirmations

open Client

variable (begin : Client) (ops : List ShellOp)

/-- The operation at an index sends something. -/
def SentAt (index : ℕ) (sent : Sent) : Prop :=
  ∃ op, ops[index]? = some op ∧ sent ∈ (stateAt step begin ops index).sends op

/-- The operation at an index confirms an action, and sends it. -/
def ConfirmedAt (index : ℕ) (kind : ConfirmKind) (sent : Sent) : Prop :=
  ∃ result polled app success, ops[index]? = some (.confirm result polled) ∧
    (stateAt step begin ops index).window = some app ∧ app.fwConfirm = some kind ∧
    ({ app with fwConfirm := none } : App).confirmedAction kind = some (sent, success)

/-- The operation at an index asks for a kind of action: a button of the window, or the tray. -/
def RequestedAt (index : ℕ) (kind : ConfirmKind) : Prop :=
  (∃ button : ConfirmButton, ops[index]? = some (.requestConfirm button) ∧ button.kind = kind ∧
    (stateAt step begin ops index).window ≠ none) ∨
  ∃ action : TrayAction, ops[index]? = some (.trayAction action) ∧ action.kind = some kind

/-- What is sent without a confirmation: a line about the table, about rules, or an answer. -/
def Sent.Unconfirmed (sent : Sent) : Prop :=
  ∃ start rest, sent = .line (start ++ rest) ∧
    start ∈ ["v1 network-", "v1 rule-add ", "v1 rule-delete ", "v1 prompt-answer "]

/-- What a poll sends: a line that the daemon reads as one of its requests. -/
def Sent.Polls (sent : Sent) : Prop :=
  ∃ line, sent = .line line ∧ ∃ request ∈ pollRequests, Request.parse line.toList = .ok request

/-- Every change that is sent is confirmed, or is of a kind that is not. Assumes: the operation at the
index sends it. -/
theorem confirmedAt_of_change {index : ℕ} {op : ShellOp} {sent : Sent} (hop : ops[index]? = some op)
    (hsends : (stateAt step begin ops index).change op = some sent) :
    (∃ kind, ConfirmedAt begin ops index kind sent) ∨ sent.Unconfirmed := by
  obtain ⟨app, hwindow, hsends⟩ := Option.bind_eq_some_iff.mp hsends
  rw [App.change.eq_def] at hsends
  cases op with
  | confirm result polled =>
    dsimp only at hsends
    obtain ⟨⟨_, success⟩, haction, rfl⟩ := Option.map_eq_some_iff.mp hsends
    obtain ⟨kind, hkind, haction⟩ := Option.bind_eq_some_iff.mp haction
    exact .inl ⟨kind, result, polled, app, success, hop, hwindow, hkind, haction⟩
  | network button result polled =>
    obtain rfl := Option.some.inj hsends
    cases button with
    | install => exact .inr ⟨"v1 network-", "install\n", rfl, by simp⟩
    | remove => exact .inr ⟨"v1 network-", "remove\n", rfl, by simp⟩
  | submitAddRule id executable port result polled =>
    dsimp only at hsends
    obtain ⟨form, _, hsends⟩ := Option.bind_eq_some_iff.mp hsends
    obtain ⟨rule, _, rfl⟩ := Option.map_eq_some_iff.mp hsends
    have hframe : rule.frame = "v1 rule-add " ++ (decimal rule.id.toNat ++ (" " ++
        (rule.executable ++ (" " ++ (rule.verdict ++ (" " ++
          (decimal rule.port.toNat ++ "\n"))))))) := by
      unfold NewRule.frame
      simp only [String.append_assoc]
    exact .inr ⟨"v1 rule-add ", _, congrArg Sent.line hframe, by simp⟩
  | deleteSelectedRule result polled =>
    dsimp only at hsends
    obtain ⟨id, _, rfl⟩ := Option.map_eq_some_iff.mp hsends
    exact .inr ⟨"v1 rule-delete ", decimal id.toNat ++ "\n", by rw [String.append_assoc], by simp⟩
  | submitVerdict verdict result polled =>
    dsimp only at hsends
    obtain ⟨⟨id, answer, scope⟩, _, rfl⟩ := Option.map_eq_some_iff.mp hsends
    refine .inr ⟨"v1 prompt-answer ", decimal id.toNat ++ (" " ++ (answer ++ (" " ++
      (scope ++ "\n")))), ?_, by simp⟩
    simp only [String.append_assoc]
  | _ => cases hsends

/-- Everything that is sent is a change, or is asked for by a poll. -/
theorem change_or_polls {client : Client} {op : ShellOp} {sent : Sent}
    (hsent : sent ∈ client.sends op) : client.change op = some sent ∨ sent.Polls := by
  rcases List.mem_append.mp hsent with hchange | hpolls
  · exact .inl (Option.mem_toList.mp hchange)
  · obtain ⟨polled, _, hrequest⟩ := List.mem_flatMap.mp hpolls
    obtain ⟨line, hline, rfl⟩ := List.mem_map.mp hrequest
    exact .inr ⟨line, rfl, parse_of_mem_requests hline⟩

variable {begin ops}

theorem offered_of_grantedAt {index : ℕ} {kind : ConfirmKind}
    (hgranted : askedLedger.GrantedAt begin ops index () kind) :
    ∃ op, ops[index]? = some op ∧ (stateAt step begin ops index).offered op = some kind := by
  obtain ⟨op, hop, hgrant⟩ := hgranted
  obtain ⟨kind', hoffered, heq⟩ := Option.map_eq_some_iff.mp hgrant
  obtain rfl := (Prod.mk.inj heq).2
  exact ⟨op, hop, hoffered⟩

/-- What the window asks for without the tray is asked for by a button. Assumes: the grant, and that
no poll takes it from the tray. -/
theorem pressed_of_grantedAt {index : ℕ} {kind : ConfirmKind}
    (hgranted : askedLedger.GrantedAt begin ops index () kind)
    (hnot : ¬ pendingLedger.ConsumedAt begin ops index ()) :
    ∃ button : ConfirmButton, ops[index]? = some (.requestConfirm button) ∧ button.kind = kind ∧
      (stateAt step begin ops index).window ≠ none := by
  obtain ⟨op, hop, hoffered⟩ := offered_of_grantedAt hgranted
  rcases Option.or_eq_some_iff.mp hoffered with htaken | ⟨_, hpressed⟩
  · refine absurd ⟨op, hop, ?_⟩ hnot
    show ((stateAt step begin ops index).taken op).map (fun _ ↦ ()) = some ()
    rw [htaken]
    rfl
  · obtain ⟨app, hwindow, hasks⟩ := Option.bind_eq_some_iff.mp hpressed
    cases op with
    | requestConfirm button =>
      refine ⟨button, hop, Option.some.inj hasks, ?_⟩
      rw [hwindow]
      exact nofun
    | _ => cases hasks

/-- What a poll takes is what the window asks for then. Assumes: the grant, and that a poll takes
something. -/
theorem pending_of_grantedAt {index : ℕ} {kind : ConfirmKind}
    (hgranted : askedLedger.GrantedAt begin ops index () kind)
    (htaken : pendingLedger.ConsumedAt begin ops index ()) :
    (stateAt step begin ops index).pending = some kind := by
  obtain ⟨op, hop, hoffered⟩ := offered_of_grantedAt hgranted
  obtain ⟨op', hop', hconsumed⟩ := htaken
  obtain rfl := Option.some.inj (hop.symm.trans hop')
  obtain ⟨found, hfound, _⟩ := Option.map_eq_some_iff.mp hconsumed
  have hsome : (stateAt step begin ops index).taken op = some found := hfound
  rw [offered, hsome] at hoffered
  exact pending_of_taken (hsome.trans hoffered)

/-- What the tray is granted is asked for by a tray action. -/
theorem requestedAt_of_pending {index : ℕ} {kind : ConfirmKind}
    (hgranted : pendingLedger.GrantedAt begin ops index () kind) :
    ∃ action : TrayAction, ops[index]? = some (.trayAction action) ∧ action.kind = some kind := by
  obtain ⟨op, hop, hgrant⟩ := hgranted
  cases op with
  | trayAction action =>
    obtain ⟨kind', hkind, heq⟩ := Option.map_eq_some_iff.mp hgrant
    obtain rfl := (Prod.mk.inj heq).2
    exact ⟨action, hop, hkind⟩
  | _ => cases hgrant

/-- A press and a tray action are different operations. Assumes: what the window is granted without the
tray, and what the tray is granted. -/
theorem ne_of_pressed {pressed index : ℕ} {kind : ConfirmKind}
    (hgranted : askedLedger.GrantedAt begin ops pressed () kind)
    (hnot : ¬ pendingLedger.ConsumedAt begin ops pressed ())
    (hrequested : ∃ kind', pendingLedger.GrantedAt begin ops index () kind') : index ≠ pressed := by
  rintro rfl
  obtain ⟨button, hbutton, _⟩ := pressed_of_grantedAt hgranted hnot
  obtain ⟨kind', hrequested⟩ := hrequested
  obtain ⟨action, htray, _⟩ := requestedAt_of_pending hrequested
  rw [hbutton] at htray
  cases htray

/-- A confirmation uses up what the window asks for. -/
theorem ConfirmedAt.consumedAt {index : ℕ} {kind : ConfirmKind} {sent : Sent}
    (hconfirmed : ConfirmedAt begin ops index kind sent) :
    askedLedger.ConsumedAt begin ops index () ∧
      (stateAt step begin ops index).asked = some kind := by
  obtain ⟨result, polled, app, success, hop, hwindow, hkind, _⟩ := hconfirmed
  have hasked : (stateAt step begin ops index).asked = some kind := by
    rw [Client.asked, hwindow]
    exact hkind
  refine ⟨⟨_, hop, if_pos ⟨?_, rfl⟩⟩, hasked⟩
  have hsome : (stateAt askedLedger.step begin ops index).asked = some kind := hasked
  rw [hsome]
  rfl

/-- Every action that is confirmed was requested, by a button of the window or from the tray, and no
request is confirmed twice. Between the request and the confirmation the window asks for this action
and no other, without a break, from some moment on. What is sent without a confirmation is no such
action: it is a line about the table or about rules, an answer to a prompt, or a request of a poll,
which only asks for the status and the lists. -/
theorem confirmed_actions_are_requested (socket : String) (hasTray : Bool) (ops : List ShellOp) :
    (∀ index sent, SentAt (start socket hasTray) ops index sent →
      (∃ kind, ConfirmedAt (start socket hasTray) ops index kind sent) ∨ sent.Unconfirmed ∨
        sent.Polls) ∧
    ∃ source shown : ℕ → ℕ,
      Set.InjOn source {index | ∃ kind sent,
        ConfirmedAt (start socket hasTray) ops index kind sent} ∧
      ∀ index kind sent, ConfirmedAt (start socket hasTray) ops index kind sent →
        RequestedAt (start socket hasTray) ops (source index) kind ∧
          source index ≤ shown index ∧ shown index < index ∧
          ∀ between, shown index < between → between ≤ index →
            (stateAt step (start socket hasTray) ops between).asked = some kind := by
  refine ⟨fun index sent hsent ↦ ?_, ?_⟩
  · obtain ⟨op, hop, hmem⟩ := hsent
    rcases change_or_polls hmem with hchange | hpolls
    · exact (confirmedAt_of_change _ ops hop hchange).imp id .inl
    · exact .inr (.inr hpolls)
  obtain ⟨shown, hshown, hgrant⟩ :=
    askedLedger.consumption_sources (start socket hasTray) ops fun _ ↦ rfl
  obtain ⟨action, haction, hpending⟩ :=
    pendingLedger.consumption_injection (start socket hasTray) ops fun _ ↦ rfl
  have hsource : ∀ index kind sent, ConfirmedAt (start socket hasTray) ops index kind sent →
      askedLedger.ConsumedAt (start socket hasTray) ops index () ∧ shown index < index ∧
        askedLedger.GrantedAt (start socket hasTray) ops (shown index) () kind ∧
        ∀ between, shown index < between → between ≤ index →
          (stateAt step (start socket hasTray) ops between).asked = some kind := by
    intro index kind sent hconfirmed
    obtain ⟨hconsumed, hasked⟩ := hconfirmed.consumedAt
    obtain ⟨hlt, token, hheld, hgranted, hkept⟩ := hgrant index () hconsumed
    obtain rfl : token = kind := Option.some.inj (hheld.symm.trans hasked)
    exact ⟨hconsumed, hlt, hgranted, hkept⟩
  have hrequested : ∀ {taken}, pendingLedger.ConsumedAt (start socket hasTray) ops taken () →
      ∃ kind, pendingLedger.GrantedAt (start socket hasTray) ops (action taken) () kind :=
    fun htaken ↦ ⟨_, (hpending _ () htaken).2.choose_spec.2⟩
  classical
  refine ⟨fun index ↦ if pendingLedger.ConsumedAt (start socket hasTray) ops (shown index) () then
    action (shown index) else shown index, shown, ?_, ?_⟩
  · rintro first ⟨firstKind, firstSent, hfirst⟩ second ⟨secondKind, secondSent, hsecond⟩ heq
    obtain ⟨hfirst, _, hfirstGrant, _⟩ := hsource _ _ _ hfirst
    obtain ⟨hsecond, _, hsecondGrant, _⟩ := hsource _ _ _ hsecond
    dsimp only at heq
    split_ifs at heq with htaken htaken' htaken'
    · exact hshown ⟨(), hfirst⟩ ⟨(), hsecond⟩ (haction ⟨(), htaken⟩ ⟨(), htaken'⟩ heq)
    · exact absurd heq (ne_of_pressed hsecondGrant htaken' (hrequested htaken))
    · exact absurd heq.symm (ne_of_pressed hfirstGrant htaken (hrequested htaken'))
    · exact hshown ⟨(), hfirst⟩ ⟨(), hsecond⟩ heq
  · intro index kind sent hconfirmed
    obtain ⟨_, hlt, hgranted, hbetween⟩ := hsource _ _ _ hconfirmed
    dsimp only
    split_ifs with htaken
    · obtain ⟨hearlier, token, hheld, hgranted'⟩ := hpending (shown index) () htaken
      obtain rfl : token = kind :=
        Option.some.inj (hheld.symm.trans (pending_of_grantedAt hgranted htaken))
      exact ⟨.inr (requestedAt_of_pending hgranted'), hearlier.le, hlt, hbetween⟩
    · exact ⟨.inl (pressed_of_grantedAt hgranted htaken), le_rfl, hlt, hbetween⟩

end Confirmations

/-! ### What the tray shows -/

section TrayLies

open Client

namespace Client

/-- The window is open, and its last poll has not found the daemon. -/
def LinkDown (client : Client) : Prop :=
  ∃ app reason, client.window = some app ∧ app.link = .down reason

/-- The state that the tray was told last. -/
def told (client : Client) : Option TrayState := client.tray.map TrayHost.last

/-- What the tray was told last while the window knows better. -/
def lie (client : Client) : Option TrayState :=
  client.window.bind fun app ↦ client.told.filter (· ≠ .fromLink app.link)

theorem lie_eq_some_iff {client : Client} {last : TrayState} :
    client.lie = some last ↔
      ∃ app, client.window = some app ∧ client.told = some last ∧ last ≠ .fromLink app.link := by
  simp [lie, Option.bind_eq_some_iff, Option.filter_eq_some_iff]

/-- A poll tells the tray only of a change. -/
theorem tray_refreshFromDaemon (client : Client) (app : App) (polled : Polled) :
    (client.refreshFromDaemon app polled).tray =
      if TrayState.fromLink (pollSnapshot polled.replies).link ≠ app.trayState then
        client.tray.map (·.setState (TrayState.fromLink (pollSnapshot polled.replies).link))
      else client.tray := rfl

theorem told_refreshFromDaemon (client : Client) (app : App) (polled : Polled) :
    (client.refreshFromDaemon app polled).told =
      if TrayState.fromLink (pollSnapshot polled.replies).link ≠ app.trayState then
        client.told.map fun _ ↦ TrayState.fromLink (pollSnapshot polled.replies).link
      else client.told := by
  rw [told, tray_refreshFromDaemon, told]
  split_ifs
  · cases client.tray with
    | none => rfl
    | some tray => simp
  · rfl

/-- The application knows the state of its link, and the tray was told it when the link is up. -/
def Honest (client : Client) : Prop :=
  ∀ app, client.window = some app → app.trayState = .fromLink app.link ∧
    ∀ status prompts, app.link = .up status prompts →
      ∀ last, client.told = some last → last = .fromLink app.link

theorem honest_start (socket : String) (hasTray : Bool) : (start socket hasTray).Honest := by
  rintro _ ⟨⟩
  exact ⟨rfl, nofun⟩

theorem lie_start (socket : String) (hasTray : Bool) : (start socket hasTray).lie = none := by
  cases hasTray <;> rfl

theorem told_trayCommand (client : Client) : (client.step .trayCommand).told = client.told := by
  rw [told, told, step, Option.map_map]
  congr 1
  exact funext TrayHost.last_handle

/-- A poll tells the tray what it has found, or the tray was told already. Assumes: the application
knew the state of its link, and the tray was told it when the link was up. -/
theorem honest_refreshFromDaemon {client : Client} {app touched : App} {op : ShellOp}
    (hwindow : client.window = some app) (hhonest : client.Honest) (htouched : Touched op app touched)
    (polled : Polled) : (client.refreshFromDaemon touched polled).Honest := by
  rintro _ ⟨⟩
  refine ⟨rfl, fun status prompts hlink last hafter ↦ ?_⟩
  obtain ⟨hstate, hup⟩ := hhonest app hwindow
  show last = TrayState.fromLink (pollSnapshot polled.replies).link
  rw [told_refreshFromDaemon] at hafter
  split_ifs at hafter with hsame
  · obtain ⟨_, _, hlast⟩ := Option.map_eq_some_iff.mp hafter
    exact hlast.symm
  · rw [not_not, htouched.trayState, hstate] at hsame
    have hlink' : (pollSnapshot polled.replies).link = .up status prompts := hlink
    cases hbefore : app.link with
    | down reason =>
      rw [hlink', hbefore] at hsame
      exact absurd hsame (TrayState.fromLink_up_ne_unavailable status prompts)
    | up status' prompts' => rw [hsame, hup _ _ hbefore last hafter]

theorem honest_step {client : Client} (op : ShellOp) (hhonest : client.Honest) :
    (client.step op).Honest := by
  rcases client.step_cases op with ⟨action, rfl⟩ | rfl | rfl | ⟨_, hsame⟩ |
    ⟨app, hwindow, touched, htouched, ⟨_, hafter⟩ | ⟨polled, _, hafter⟩⟩
  · intro app happ
    have happ' : client.window.getD (.new client.socket) = app := Option.some.inj happ
    cases hwindow : client.window with
    | none =>
      rw [hwindow] at happ'
      obtain rfl : App.new client.socket = app := happ'
      exact ⟨rfl, fun _ _ hlink ↦ nomatch hlink⟩
    | some app' =>
      rw [hwindow] at happ'
      obtain rfl : app' = app := happ'
      exact hhonest app' hwindow
  · intro app happ
    rw [told_trayCommand]
    exact hhonest app happ
  · intro app happ
    cases happ
  · rw [hsame]
    exact hhonest
  · intro app' happ
    rw [hafter] at happ ⊢
    obtain rfl : touched = app' := Option.some.inj happ
    rw [htouched.link, htouched.trayState]
    exact hhonest app hwindow
  · rw [hafter]
    exact honest_refreshFromDaemon hwindow hhonest htouched polled

/-- A lie is one about a link that is down. Assumes: what an application knows of its link, and the
lie. -/
theorem Honest.linkDown {client : Client} (hhonest : client.Honest) {last : TrayState}
    (hlie : client.lie = some last) : client.LinkDown := by
  obtain ⟨app, hwindow, htold, hne⟩ := lie_eq_some_iff.mp hlie
  cases hlink : app.link with
  | down reason => exact ⟨app, reason, hwindow, hlink⟩
  | up status prompts => exact absurd ((hhonest app hwindow).2 status prompts hlink last htold) hne

/-- The tray is told nothing while the link stays down. Assumes: what an application knows of its link,
and that the link is down before and after the operation. -/
theorem told_step_of_linkDown {client : Client} {op : ShellOp} (hhonest : client.Honest)
    (hbefore : client.LinkDown) (hdown : (client.step op).LinkDown) :
    (client.step op).told = client.told := by
  rcases client.step_cases op with ⟨action, rfl⟩ | rfl | rfl | ⟨_, hsame⟩ |
    ⟨app, hwindow, touched, htouched, ⟨_, hafter⟩ | ⟨polled, _, hafter⟩⟩
  · rfl
  · exact told_trayCommand client
  · rfl
  · rw [hsame]
  · rw [hafter]
    rfl
  · rw [hafter] at hdown ⊢
    obtain ⟨_, reason, ⟨⟩, hlink⟩ := hdown
    obtain ⟨app', reason', hwindow', hlink'⟩ := hbefore
    obtain rfl := Option.some.inj (hwindow.symm.trans hwindow')
    have hlink'' : (pollSnapshot polled.replies).link = .down reason := hlink
    rw [told_refreshFromDaemon, if_neg]
    rw [not_not, hlink'', htouched.trayState, (hhonest app hwindow).1, hlink']
    rfl

/-- Where a lie comes from: the window was opened beside a tray that was told it, or the tray lied
before. Assumes: what an application knows of its link, and the lie after the operation. -/
theorem opened_or_lied {client : Client} {op : ShellOp} {last : TrayState}
    (hhonest : client.Honest) (hlie : (client.step op).lie = some last) :
    ((∃ action, op = .trayAction action) ∧ client.window = none ∧ client.told = some last ∧
        last ≠ .unavailable) ∨ client.lie = some last := by
  obtain ⟨app', reason, hwindow', hlink⟩ := (honest_step op hhonest).linkDown hlie
  obtain ⟨_, hsome, htold, hne⟩ := lie_eq_some_iff.mp hlie
  obtain rfl := Option.some.inj (hwindow'.symm.trans hsome)
  rw [hlink] at hne
  rcases client.step_cases op with ⟨action, rfl⟩ | rfl | rfl | ⟨_, hsame⟩ |
    ⟨app, hwindow, touched, htouched, ⟨_, hafter⟩ | ⟨polled, _, hafter⟩⟩
  · cases hwindow : client.window with
    | none => exact .inl ⟨⟨action, rfl⟩, rfl, htold, hne⟩
    | some app =>
      have hwindow'' : client.window.getD (.new client.socket) = app' := Option.some.inj hwindow'
      rw [hwindow] at hwindow''
      obtain rfl : app = app' := hwindow''
      rw [← hlink] at hne
      exact .inr (lie_eq_some_iff.mpr ⟨app, hwindow, htold, hne⟩)
  · rw [told_trayCommand] at htold
    rw [← hlink] at hne
    exact .inr (lie_eq_some_iff.mpr ⟨app', hwindow', htold, hne⟩)
  · cases hwindow'
  · rw [hsame] at hlie
    exact .inr hlie
  · rw [hafter] at hwindow' htold
    obtain rfl : touched = app' := Option.some.inj hwindow'
    refine .inr (lie_eq_some_iff.mpr ⟨app, hwindow, htold, ?_⟩)
    rw [← htouched.link, hlink]
    exact hne
  · rw [hafter] at hwindow' htold
    have hlink' : (pollSnapshot polled.replies).link = .down reason := by
      rw [← hlink, ← Option.some.inj hwindow']
      rfl
    rw [told_refreshFromDaemon, hlink'] at htold
    split_ifs at htold with hchanged
    · obtain ⟨_, _, hlast⟩ := Option.map_eq_some_iff.mp htold
      exact absurd hlast.symm hne
    · rw [not_not, htouched.trayState, (hhonest app hwindow).1] at hchanged
      refine .inr (lie_eq_some_iff.mpr ⟨app, hwindow, htold, ?_⟩)
      rw [← hchanged]
      exact hne

/-! ### The queue to the tray -/

/-- The state that an operation tells the tray. -/
def tells (client : Client) (op : ShellOp) : Option TrayState :=
  client.tray.bind fun _ ↦ client.window.bind fun app ↦ (client.polls op).bind fun polled ↦
    let state := TrayState.fromLink (pollSnapshot polled.replies).link
    if state ≠ app.trayState then some state else none

/-- The state that the thread of the tray handles. -/
def handles (client : Client) : ShellOp → Option TrayState
  | .trayCommand => client.tray.bind (·.told.head?)
  | _ => none

theorem tells_of_not_polls {client : Client} {op : ShellOp} (hpolls : client.polls op = none) :
    client.tells op = none := by
  simp [tells, hpolls]

/-- Only the thread of the tray handles a state. Assumes: another operation. -/
theorem handles_of_other {client : Client} {op : ShellOp} (hother : op ≠ .trayCommand) :
    client.handles op = none := by
  cases op with
  | trayCommand => exact absurd rfl hother
  | _ => rfl

/-- What the other operations do to the tray: they tell it a state, or leave it alone. Assumes: it is
no step of its thread. -/
theorem tray_step {client : Client} {op : ShellOp} (hother : op ≠ .trayCommand) :
    (client.step op).tray =
      client.tray.map fun tray ↦ { tray with told := tray.told ++ (client.tells op).toList } := by
  have hsilent : client.tells op = none → client.tray =
      client.tray.map fun tray ↦ { tray with told := tray.told ++ (client.tells op).toList } := by
    intro htells
    simp [htells]
  rcases client.step_cases op with ⟨action, rfl⟩ | rfl | rfl | ⟨hwindow, hsame⟩ |
    ⟨app, hwindow, touched, htouched, ⟨hpolls, hafter⟩ | ⟨polled, hpolls, hafter⟩⟩
  · exact hsilent (tells_of_not_polls rfl)
  · exact absurd rfl hother
  · exact hsilent (tells_of_not_polls rfl)
  · rw [hsame]
    exact hsilent (by simp [tells, hwindow])
  · rw [hafter]
    exact hsilent (tells_of_not_polls hpolls)
  · rw [hafter, tray_refreshFromDaemon, htouched.trayState]
    cases htray : client.tray with
    | none => simp
    | some tray =>
      by_cases hchanged : TrayState.fromLink (pollSnapshot polled.replies).link ≠ app.trayState
      · simp [tells, htray, hwindow, hpolls, hchanged, TrayHost.setState]
      · rw [not_not] at hchanged
        simp [tells, htray, hwindow, hpolls, hchanged]

/-- The queue to the tray as a channel from the window to the thread of the tray. -/
def trayChannel : Channel Client ShellOp TrayState where
  step := step
  items client := (client.tray.map TrayHost.told).getD []
  sent := tells
  received := handles
  items_step client op := by
    by_cases hcommand : op = .trayCommand
    · subst hcommand
      have htells : client.tells .trayCommand = none := tells_of_not_polls rfl
      rw [htells, step, handles]
      cases client.tray with
      | none => exact ⟨[], rfl, rfl⟩
      | some tray =>
        refine ⟨tray.told.tail, ?_, ?_⟩
        · cases htold : tray.told <;> simp [htold]
        · cases htold : tray.told <;> simp [TrayHost.handle, htold]
    · refine ⟨(client.tray.map TrayHost.told).getD [], by rw [handles_of_other hcommand]; rfl, ?_⟩
      rw [tray_step hcommand]
      cases htray : client.tray with
      | none => simp [tells, htray]
      | some tray => rfl

/-- The tray shows what its thread handles, and otherwise what it showed. -/
theorem shown_step (client : Client) (op : ShellOp) :
    (client.step op).tray.map TrayHost.shown =
      (client.handles op).or (client.tray.map TrayHost.shown) := by
  by_cases hcommand : op = .trayCommand
  · subst hcommand
    rw [step, handles]
    cases client.tray with
    | none => rfl
    | some tray => cases htold : tray.told <;> simp [TrayHost.handle, htold]
  · rw [tray_step hcommand, handles_of_other hcommand, Option.none_or, Option.map_map]
    rfl

end Client

variable (socket : String) (hasTray : Bool) (ops : List ShellOp) (index : ℕ)

/-- The tray shows the state that its thread has handled last, and the thread handles what the tray was
told, in its order. Assumes: there is a tray. -/
theorem tray_stateAt {tray : TrayHost}
    (htray : (stateAt step (start socket hasTray) ops index).tray = some tray) :
    tray.shown =
        (Run.log step handles (start socket hasTray) ops index).getLast?.getD .unavailable ∧
      Run.log step tells (start socket hasTray) ops index =
        Run.log step handles (start socket hasTray) ops index ++ tray.told ∧
      (stateAt step (start socket hasTray) ops index).told = some
        ((Run.log step tells (start socket hasTray) ops index).getLast?.getD .unavailable) := by
  have hshown : tray.shown =
      (Run.log step handles (start socket hasTray) ops index).getLast?.getD .unavailable := by
    have hview := view_stateAt step handles (start socket hasTray) ops (fun _ ↦ True) id
      (fun client ↦ client.tray.map TrayHost.shown) trivial (fun _ _ _ ↦ trivial)
      (fun client op _ ↦ by rw [shown_step, Option.map_id, id]) index
    have hfirst : ((start socket hasTray).tray.map TrayHost.shown).getD .unavailable =
        .unavailable := by cases hasTray <;> rfl
    rw [htray, Option.map_some, Option.map_id, id] at hview
    calc tray.shown = (some tray.shown).getD .unavailable := rfl
      _ = (Run.log step handles (start socket hasTray) ops index).getLast?.getD .unavailable := by
        rw [hview, Option.getD_or, hfirst]
  have hqueue : Run.log step tells (start socket hasTray) ops index =
      Run.log step handles (start socket hasTray) ops index ++ tray.told := by
    have hconserved := trayChannel.conservation (start socket hasTray) ops index
    have hempty : trayChannel.items (start socket hasTray) = [] := by cases hasTray <;> rfl
    have hitems : trayChannel.items (stateAt step (start socket hasTray) ops index) =
        tray.told := congrArg (fun tray ↦ (Option.map TrayHost.told tray).getD []) htray
    rw [hempty, List.nil_append] at hconserved
    exact hitems ▸ hconserved
  refine ⟨hshown, hqueue, ?_⟩
  rw [told, htray, Option.map_some, TrayHost.last, hqueue, List.getLast?_append, hshown]
  cases tray.told.getLast? <;> rfl

/-- What the tray was told last differs from the window exactly from when a tray action has opened the
window beside it, as long as no poll has found the daemon. -/
theorem lie_stateAt_iff (last : TrayState) :
    (stateAt step (start socket hasTray) ops index).lie = some last ↔
      ∃ opened < index, (∃ action, ops[opened]? = some (.trayAction action)) ∧
        (stateAt step (start socket hasTray) ops opened).window = none ∧
        (stateAt step (start socket hasTray) ops opened).told = some last ∧ last ≠ .unavailable ∧
        ∀ between, opened < between → between ≤ index →
          (stateAt step (start socket hasTray) ops between).LinkDown := by
  have hhonest : ∀ index, (stateAt step (start socket hasTray) ops index).Honest :=
    stateAt_invariant step (start socket hasTray) ops Honest (honest_start socket hasTray)
      fun _ op ↦ honest_step op
  constructor
  · intro hlie
    obtain ⟨opened, hlt, ⟨op, hop, ⟨action, rfl⟩, hwindow, htold, hne⟩, hlies, _⟩ :=
      exists_source_of_view step (start socket hasTray) ops Honest lie
        (honest_start socket hasTray) (lie_start socket hasTray) (fun _ op ↦ honest_step op)
        (fun client op shown hhonest hlie ↦
          (opened_or_lied hhonest hlie).imp id fun hlied ↦ ⟨hlied, not_false⟩) hlie
    exact ⟨opened, hlt, ⟨action, hop⟩, hwindow, htold, hne, fun between hafter hbound ↦
      (hhonest between).linkDown (hlies between hafter hbound)⟩
  · rintro ⟨opened, hlt, ⟨action, hop⟩, hwindow, htold, hne, hdown⟩
    have hkept : ∀ between, opened + 1 ≤ between → between ≤ index →
        (stateAt step (start socket hasTray) ops between).told = some last := by
      refine stateAt_induction step _ ops (fun client ↦ client.told = some last) ?_
        fun between hafter hbefore op hop htold ↦ ?_
      · rw [stateAt_succ step _ ops hop]
        exact htold
      · have hnext := hdown (between + 1) (by omega) hbefore
        rw [stateAt_succ step _ ops hop] at hnext
        rw [told_step_of_linkDown (hhonest between) (hdown between hafter hbefore.le) hnext, htold]
    obtain ⟨app, reason, happ, hlink⟩ := hdown index hlt le_rfl
    refine lie_eq_some_iff.mpr ⟨app, happ, hkept index hlt le_rfl, ?_⟩
    rw [hlink]
    exact hne

/-- What the tray shows, and when it is behind the window. It shows the state that its thread has
handled last, unavailable at first, and the thread handles what the tray was told, in its order and
nothing else. What it was told last is another state than that of the window exactly from when a tray
action has opened the window beside it, as long as no poll has found the daemon; and then it is what
it was told before, which was not unavailable. -/
theorem tray_lies_iff :
    let begin := start socket hasTray
    let client := stateAt step begin ops index
    (∀ tray, client.tray = some tray →
      tray.shown = (Run.log step handles begin ops index).getLast?.getD .unavailable ∧
        Run.log step tells begin ops index = Run.log step handles begin ops index ++ tray.told ∧
        client.told = some ((Run.log step tells begin ops index).getLast?.getD .unavailable)) ∧
    ∀ last, client.lie = some last ↔
      ∃ opened < index, (∃ action, ops[opened]? = some (.trayAction action)) ∧
        (stateAt step begin ops opened).window = none ∧
        (stateAt step begin ops opened).told = some last ∧ last ≠ .unavailable ∧
        ∀ between, opened < between → between ≤ index →
          (stateAt step begin ops between).LinkDown :=
  ⟨fun _ htray ↦ tray_stateAt socket hasTray ops index htray,
    lie_stateAt_iff socket hasTray ops index⟩

end TrayLies

end Shell

end InterFire
