import InterFire.PolicyRequests
import InterFire.PromptClients

/-!
# The daemon and its prompt clients

Terminal clients and desktops poll the daemon's prompt list, show its rows and send answers, while
the daemon enqueues, expires and answers prompts and is started again. A list that was sent can be
read at any later time, and so can an answer, in any order and any number of times; this allows more
runs than the sockets do.

What an operator sees is remembered beside the clients: with each row the number of the daemon that
listed it, and with each answer the rows that were on the screen when its verdict and its scope were
chosen. No client makes up a row (`Terminal.has_of_key`, `AlertWindow.has_of_poll`), an alert keeps
a chosen scope only for rows with its id (`AlertWindow.aligned_poll`), and a daemon keeps the key of
a prompt for as long as it runs (`PolicyStore.extends_step_request`).
-/

set_option autoImplicit false
set_option relaxedAutoImplicit false

namespace InterFire

namespace PolicyStore

/-- The housekeeping of an operation that changes no prompt. -/
def expirePrompts (store : PolicyStore) (now : Instant) : PolicyStore :=
  match store.prompts.lock with
  | none => store
  | some prompts => { store with prompts := store.prompts.store (prompts.expire now) }

/-- The answer is accepted and is the first one to its prompt. -/
def Records (inputs : PolicyInputs) (store : PolicyStore) (id : UInt64) (verdict scope : String)
    (answered : Answered) : Prop :=
  ∃ answer lifetime, Reaches inputs store verdict scope answer lifetime ∧
    (store.prompts.value.answer inputs.expireNow inputs.insertNow id answer lifetime).2 =
      .ok answered ∧ answered.duplicate = false

end PolicyStore

/-! ### What is on the screens and under way -/

/-- A row, and the number of the daemon that listed it. -/
structure Shown where
  row : PromptRow
  incarnation : ℕ
  deriving DecidableEq, Repr

/-- The frame of a prompt list, and the number of the daemon that sent it. -/
structure PromptFrame where
  text : String
  incarnation : ℕ
  deriving DecidableEq, Repr

/-- An answer, and the rows that were shown when its verdict and its scope were chosen. -/
structure Submission where
  id : UInt64
  verdict : String
  scope : String
  verdictShown : Shown
  scopeShown : Shown
  deriving DecidableEq, Repr

/-- A terminal client, with the numbers of the daemons that listed its rows and the row of its
form. -/
structure Terminal where
  app : App
  listed : ℕ
  opened : ℕ
  deriving DecidableEq, Repr

/-- A desktop, with the number of the daemon that listed the row of the alert, and the row that was
shown when the scope of the alert was chosen. -/
structure AlertWindow where
  desktop : Desktop
  listed : ℕ
  scopeShown : Shown
  deriving DecidableEq, Repr

namespace Terminal

def new : Terminal := ⟨.new, 0, 0⟩

/-- The client reads a prompt list that it fetched. A list that cannot be read is dropped. -/
def poll (terminal : Terminal) (frame : PromptFrame) : Terminal :=
  match readPrompts frame.text with
  | none => terminal
  | some rows =>
    { terminal with app := terminal.app.apply (.prompts rows), listed := frame.incarnation }

/-- A command fails, which closes the form. -/
def fail (terminal : Terminal) (message : String) : Terminal :=
  { terminal with app := terminal.app.apply (.actionError message) }

/-- A key. A form that it opens is for one of the listed rows. -/
def key (terminal : Terminal) (code : KeyCode) : Terminal :=
  { terminal with
    app := (terminal.app.handleKey code).1
    opened :=
      match terminal.app.overlay with
      | .answerPrompt _ => terminal.opened
      | _ => terminal.listed }

/-- The answer that a key sends. Verdict and scope are chosen while the form shows its row. -/
def submit (terminal : Terminal) (code : KeyCode) : Option Submission :=
  match (terminal.app.handleKey code).2, terminal.app.overlay with
  | .command (.answerPrompt id verdict scope), .answerPrompt form =>
    some ⟨id, verdict, scope, ⟨form.prompt, terminal.opened⟩, ⟨form.prompt, terminal.opened⟩⟩
  | _, _ => none

end Terminal

namespace AlertWindow

def new : AlertWindow :=
  ⟨⟨none⟩, 0, ⟨⟨0, "", "", 0, "", 0⟩, 0⟩⟩

/-- The desktop polls. An alert that it keeps has the scope that was chosen for it, and a new one
has the scope it starts with. -/
def poll (window : AlertWindow) (frame : Option PromptFrame) : AlertWindow :=
  let rows := frame.bind fun frame ↦ readPrompts frame.text
  let incarnation := (frame.map PromptFrame.incarnation).getD window.listed
  let desktop := window.desktop.refreshFromDaemon rows
  { desktop
    listed :=
      if desktop.alert.any (·.prompt ∈ rows.getD []) then incarnation else window.listed
    scopeShown :=
      match ConnectionAlert.kept window.desktop.alert (rows.getD []),
          ConnectionAlert.answerable (rows.getD []) with
      | none, some row => ⟨row, incarnation⟩
      | _, _ => window.scopeShown }

/-- The operator chooses a scope. -/
def setScope (window : AlertWindow) (scope : AlertScope) : AlertWindow :=
  { window with
    desktop := window.desktop.setScope scope
    scopeShown :=
      match window.desktop.alert with
      | some alert => ⟨alert.prompt, window.listed⟩
      | none => window.scopeShown }

def toggleDetails (window : AlertWindow) : AlertWindow :=
  { window with desktop := window.desktop.toggleDetails }

def submitted (window : AlertWindow) (reply : Except String Unit) : AlertWindow :=
  { window with desktop := window.desktop.submitted reply }

/-- The answer that a verdict sends. -/
def submit (window : AlertWindow) (verdict : AlertVerdict) : Option Submission :=
  match window.desktop.alert, window.desktop.submitVerdict verdict with
  | some alert, some (id, verdict, scope) =>
    some ⟨id, verdict, scope, ⟨alert.prompt, window.listed⟩, window.scopeShown⟩
  | _, _ => none

end AlertWindow

/-! ### Runs -/

/-- The daemon, unless it is down, and its clients. -/
structure PromptSystem where
  daemon : Option PolicyStore
  incarnation : ℕ
  frames : List PromptFrame
  submissions : List Submission
  terminals : ℕ → Terminal
  desktops : ℕ → AlertWindow

inductive PromptStep
  | enqueue (expireNow createNow : Instant) (key : PromptKey)
  | expire (now : Instant)
  | request (inputs : PolicyInputs) (request : PolicyRequest)
  | list (expireNow now : Instant)
  | restart (directory : RulesDirectory)
  | deliver (submission : ℕ) (inputs : PolicyInputs)
  | terminalPoll (client frame : ℕ)
  | terminalFail (client : ℕ) (message : String)
  | terminalKey (client : ℕ) (code : KeyCode)
  | desktopPoll (client : ℕ) (frame : Option ℕ)
  | desktopScope (client : ℕ) (scope : AlertScope)
  | desktopDetails (client : ℕ)
  | desktopSubmit (client : ℕ) (verdict : AlertVerdict)
  | desktopReply (client : ℕ) (reply : Except String Unit)

namespace PromptSystem

/-- A daemon that has just been started, and clients that have fetched nothing. -/
def initial (toml : Toml) (directory : RulesDirectory) : PromptSystem :=
  { daemon := PolicyStore.start toml directory
    incarnation := 0
    frames := []
    submissions := []
    terminals := fun _ ↦ .new
    desktops := fun _ ↦ .new }

/-- The daemon does something, if it is up. -/
def onDaemon (system : PromptSystem) (change : PolicyStore → PolicyStore) : PromptSystem :=
  { system with daemon := system.daemon.map change }

/-- A terminal client changes, and may send an answer. -/
def onTerminal (system : PromptSystem) (client : ℕ) (terminal : Terminal)
    (answer : Option Submission) : PromptSystem :=
  { system with
    terminals := Function.update system.terminals client terminal
    submissions := system.submissions ++ answer.toList }

/-- A desktop changes, and may send an answer. -/
def onDesktop (system : PromptSystem) (client : ℕ) (window : AlertWindow)
    (answer : Option Submission) : PromptSystem :=
  { system with
    desktops := Function.update system.desktops client window
    submissions := system.submissions ++ answer.toList }

/-- The daemon sends its prompt list, if it is up. -/
def sendList (system : PromptSystem) (expireNow now : Instant) : PromptSystem :=
  match system.daemon with
  | none => system
  | some store =>
    { system with
      daemon := some (store.promptList expireNow now).1
      frames := system.frames ++
        [⟨(store.promptList expireNow now).2.encode, system.incarnation⟩] }

/-- One step. -/
def step (toml : Toml) (system : PromptSystem) : PromptStep → PromptSystem
  | .enqueue expireNow createNow key =>
    system.onDaemon (·.step toml (.enqueue expireNow createNow key))
  | .expire now => system.onDaemon (·.expirePrompts now)
  | .request inputs request => system.onDaemon (·.step toml (.request inputs request))
  | .list expireNow now => system.sendList expireNow now
  | .restart directory =>
    { system with
      daemon := PolicyStore.start toml directory, incarnation := system.incarnation + 1 }
  | .deliver index inputs =>
    match system.submissions[index]? with
    | none => system
    | some answer =>
      system.onDaemon
        (·.step toml (.request inputs (.promptAnswer answer.id answer.verdict answer.scope)))
  | .terminalPoll client index =>
    match system.frames[index]? with
    | none => system
    | some frame => system.onTerminal client ((system.terminals client).poll frame) none
  | .terminalFail client message =>
    system.onTerminal client ((system.terminals client).fail message) none
  | .terminalKey client code =>
    system.onTerminal client ((system.terminals client).key code)
      ((system.terminals client).submit code)
  | .desktopPoll client index =>
    system.onDesktop client
      ((system.desktops client).poll (index.bind fun index ↦ system.frames[index]?)) none
  | .desktopScope client scope =>
    system.onDesktop client ((system.desktops client).setScope scope) none
  | .desktopDetails client =>
    system.onDesktop client (system.desktops client).toggleDetails none
  | .desktopSubmit client verdict =>
    system.onDesktop client (system.desktops client) ((system.desktops client).submit verdict)
  | .desktopReply client reply =>
    system.onDesktop client ((system.desktops client).submitted reply) none

end PromptSystem

/-! ### Where the rows are -/

/-- The row is in the list that the frame carries. -/
def PromptFrame.Has (frame : PromptFrame) (shown : Shown) : Prop :=
  ∃ rows, readPrompts frame.text = some rows ∧ shown.row ∈ rows ∧
    shown.incarnation = frame.incarnation

/-- The row was shown when the verdict or the scope was chosen. -/
def Submission.Has (answer : Submission) (shown : Shown) : Prop :=
  shown = answer.verdictShown ∨ shown = answer.scopeShown

/-- The answer carries the id of the rows that were shown. -/
def Submission.Aligned (answer : Submission) : Prop :=
  answer.id = answer.verdictShown.row.id ∧ answer.id = answer.scopeShown.row.id

namespace Terminal

variable {terminal : Terminal} {shown : Shown}

/-- The row is in the list or in the form. -/
def Has (terminal : Terminal) (shown : Shown) : Prop :=
  (shown.row ∈ terminal.app.prompts ∧ shown.incarnation = terminal.listed) ∨
    ∃ form, terminal.app.overlay = .answerPrompt form ∧ shown = ⟨form.prompt, terminal.opened⟩

/-- A poll replaces the list and leaves the form. Assumes: the row is there after the poll. -/
theorem has_of_poll {frame : PromptFrame} (hhas : (terminal.poll frame).Has shown) :
    frame.Has shown ∨ terminal.Has shown := by
  unfold poll at hhas
  split at hhas
  · exact .inr hhas
  · next rows hrows =>
    have hprompts : (terminal.app.apply (.prompts rows)).prompts = rows :=
      (App.sameRows_clampSelection _).1
    have hoverlay : (terminal.app.apply (.prompts rows)).overlay = terminal.app.overlay :=
      (App.sameRows_clampSelection _).2
    rcases hhas with ⟨hmem, hlisted⟩ | ⟨form, hform, hshown⟩
    · exact .inl ⟨rows, hrows, hprompts ▸ hmem, hlisted⟩
    · exact .inr (.inr ⟨form, hoverlay.symm.trans hform, hshown⟩)

theorem has_of_fail {message : String} (hhas : (terminal.fail message).Has shown) :
    terminal.Has shown := by
  rcases hhas with hlisted | ⟨form, hform, _⟩
  · exact .inl hlisted
  · cases hform

/-- A key moves rows from the list to the form only. Assumes: the row is there after the key. -/
theorem has_of_key {code : KeyCode} (hhas : (terminal.key code).Has shown) :
    terminal.Has shown := by
  rcases hhas with ⟨hmem, hlisted⟩ | ⟨after, hafter, rfl⟩
  · have hprompts : (terminal.key code).app.prompts = terminal.app.prompts :=
      terminal.app.prompts_handleKey code
    exact .inl ⟨hprompts ▸ hmem, hlisted⟩
  · rcases App.form_handleKey hafter with ⟨form, hopen, hprompt⟩ | ⟨hclosed, hmem⟩
    · refine .inr ⟨form, hopen, ?_⟩
      simp only [key, hopen, hprompt]
    · refine .inl ⟨hmem, ?_⟩
      cases hoverlay : terminal.app.overlay with
      | answerPrompt form => exact absurd hoverlay (hclosed form)
      | none => simp only [key, hoverlay]
      | notice message => simp only [key, hoverlay]

/-- An answer is sent for the row of the form. Assumes: the key sends it. -/
theorem form_of_submit {code : KeyCode} {answer : Submission}
    (hsubmit : terminal.submit code = some answer) :
    ∃ form, terminal.app.overlay = .answerPrompt form ∧
      answer.verdictShown = ⟨form.prompt, terminal.opened⟩ ∧
      answer.scopeShown = ⟨form.prompt, terminal.opened⟩ ∧ answer.Aligned := by
  unfold submit at hsubmit
  split at hsubmit
  · next id verdict scope form hsends hopen =>
    obtain rfl := Option.some.inj hsubmit
    obtain ⟨other, hother, hid⟩ := App.form_of_answer hsends
    obtain rfl := Overlay.answerPrompt.inj (hopen.symm.trans hother)
    exact ⟨form, hopen, rfl, rfl, hid, hid⟩
  · cases hsubmit

end Terminal

namespace AlertWindow

variable {window : AlertWindow} {shown : Shown}

/-- The row is that of the alert, or was shown when the scope of the alert was chosen. -/
def Has (window : AlertWindow) (shown : Shown) : Prop :=
  ∃ alert, window.desktop.alert = some alert ∧
    (shown = ⟨alert.prompt, window.listed⟩ ∨ shown = window.scopeShown)

/-- The scope was chosen for a row with the id of the alert. -/
def Aligned (window : AlertWindow) : Prop :=
  ∀ alert, window.desktop.alert = some alert → window.scopeShown.row.id = alert.prompt.id

/-- The rows that a poll reads. -/
def polledRows (frame : Option PromptFrame) : List PromptRow :=
  (frame.bind fun frame ↦ readPrompts frame.text).getD []

/-- The number of the daemon that a poll reads from. -/
def polledFrom (window : AlertWindow) (frame : Option PromptFrame) : ℕ :=
  (frame.map PromptFrame.incarnation).getD window.listed

/-- What a poll reads is in the frame. Assumes: it reads the row. -/
theorem frame_of_mem_polledRows {frame : Option PromptFrame} {row : PromptRow}
    (hmem : row ∈ polledRows frame) :
    ∃ found, frame = some found ∧ found.Has ⟨row, window.polledFrom frame⟩ := by
  cases frame with
  | none => cases hmem
  | some found =>
    refine ⟨found, rfl, ?_⟩
    unfold polledRows at hmem
    cases hread : readPrompts found.text with
    | none =>
      rw [Option.bind_some, hread] at hmem
      cases hmem
    | some rows =>
      rw [Option.bind_some, hread] at hmem
      exact ⟨rows, hread, hmem, rfl⟩

/-- A poll keeps the alert and its scope, opens one for a row that it read, or leaves none. -/
theorem poll_cases (window : AlertWindow) (frame : Option PromptFrame) :
    (∃ alert, window.desktop.alert = some alert ∧
      (window.poll frame).desktop.alert = some (alert.syncFromList (polledRows frame)) ∧
      (window.poll frame).scopeShown = window.scopeShown) ∨
    (∃ row ∈ polledRows frame,
      (window.poll frame).desktop.alert = some (ConnectionAlert.fromPrompt row) ∧
      (window.poll frame).scopeShown = ⟨row, window.polledFrom frame⟩) ∨
    (window.poll frame).desktop.alert = none := by
  have halert : (window.poll frame).desktop.alert =
      (ConnectionAlert.kept window.desktop.alert (polledRows frame)).or
        ((ConnectionAlert.answerable (polledRows frame)).map ConnectionAlert.fromPrompt) :=
    ConnectionAlert.advance_eq _ _
  have hscope : (window.poll frame).scopeShown =
      match ConnectionAlert.kept window.desktop.alert (polledRows frame),
          ConnectionAlert.answerable (polledRows frame) with
      | none, some row => ⟨row, window.polledFrom frame⟩
      | _, _ => window.scopeShown := rfl
  cases hkept : ConnectionAlert.kept window.desktop.alert (polledRows frame) with
  | some after =>
    rw [hkept] at halert hscope
    obtain ⟨hsynced, _⟩ := Option.filter_eq_some_iff.mp hkept
    obtain ⟨alert, hbefore, rfl⟩ := Option.map_eq_some_iff.mp hsynced
    exact .inl ⟨alert, hbefore, halert, hscope⟩
  | none =>
    rw [hkept] at halert hscope
    cases hfirst : ConnectionAlert.answerable (polledRows frame) with
    | none =>
      rw [hfirst] at halert
      exact .inr (.inr halert)
    | some row =>
      rw [hfirst] at halert hscope
      exact .inr (.inl ⟨row, List.mem_of_find?_eq_some hfirst, halert, hscope⟩)

/-- After a poll the row of the alert comes from the daemon that was polled, if it was read, and
from where it came before otherwise. Assumes: there is an alert after the poll. -/
theorem listed_poll {frame : Option PromptFrame} {alert : ConnectionAlert}
    (halert : (window.poll frame).desktop.alert = some alert) :
    (window.poll frame).listed =
      if alert.prompt ∈ polledRows frame then window.polledFrom frame else window.listed := by
  have hlisted : (window.poll frame).listed =
      if (window.poll frame).desktop.alert.any (·.prompt ∈ polledRows frame) then
        window.polledFrom frame
      else window.listed := rfl
  rw [hlisted, halert]
  simp

/-- A poll shows rows that it read or that were there before. Assumes: the row is there after the
poll. -/
theorem has_of_poll {frame : Option PromptFrame} (hhas : (window.poll frame).Has shown) :
    (∃ found, frame = some found ∧ found.Has shown) ∨ window.Has shown := by
  obtain ⟨after, hafter, hshown⟩ := hhas
  have hlisted := listed_poll hafter
  rcases window.poll_cases frame with ⟨alert, halert, hkept, hscope⟩ |
    ⟨row, hrow, hopened, hscope⟩ | hnone
  · obtain rfl := Option.some.inj (hafter.symm.trans hkept)
    rcases hshown with rfl | rfl
    · by_cases hread : (alert.syncFromList (polledRows frame)).prompt ∈ polledRows frame
      · rw [hlisted, if_pos hread]
        exact .inl (frame_of_mem_polledRows hread)
      · have hsame := (alert.prompt_syncFromList (polledRows frame)).resolve_left hread
        rw [hlisted, if_neg hread, hsame]
        exact .inr ⟨alert, halert, .inl rfl⟩
    · rw [hscope]
      exact .inr ⟨alert, halert, .inr rfl⟩
  · obtain rfl := Option.some.inj (hafter.symm.trans hopened)
    have hread : (ConnectionAlert.fromPrompt row).prompt ∈ polledRows frame := hrow
    rcases hshown with rfl | rfl
    · rw [hlisted, if_pos hread]
      exact .inl (frame_of_mem_polledRows hread)
    · rw [hscope]
      exact .inl (frame_of_mem_polledRows hrow)
  · rw [hnone] at hafter
    cases hafter

/-- A poll keeps a chosen scope only for an alert with the same id. Assumes: so it was before. -/
theorem aligned_poll (haligned : window.Aligned) (frame : Option PromptFrame) :
    (window.poll frame).Aligned := by
  intro after hafter
  rcases window.poll_cases frame with ⟨alert, halert, hkept, hscope⟩ |
    ⟨row, hrow, hopened, hscope⟩ | hnone
  · obtain rfl := Option.some.inj (hafter.symm.trans hkept)
    rw [hscope, alert.id_syncFromList]
    exact haligned alert halert
  · obtain rfl := Option.some.inj (hafter.symm.trans hopened)
    rw [hscope]
    rfl
  · rw [hnone] at hafter
    cases hafter

/-- A choice of scope shows nothing new. Assumes: the row is there after the choice. -/
theorem has_of_setScope {scope : AlertScope} (hhas : (window.setScope scope).Has shown) :
    window.Has shown := by
  obtain ⟨after, hafter, hshown⟩ := hhas
  obtain ⟨alert, halert, rfl⟩ := Option.map_eq_some_iff.mp hafter
  refine ⟨alert, halert, .inl ?_⟩
  rcases hshown with rfl | rfl
  · rfl
  · simp only [setScope, halert]

theorem aligned_setScope (window : AlertWindow) (scope : AlertScope) :
    (window.setScope scope).Aligned := by
  intro after hafter
  obtain ⟨alert, halert, rfl⟩ := Option.map_eq_some_iff.mp hafter
  simp only [setScope, halert]

/-- The second window shows the alert of the first one, or none. -/
structure SameAlert (before after : AlertWindow) : Prop where
  listed : after.listed = before.listed
  scopeShown : after.scopeShown = before.scopeShown
  alert : ∀ later, after.desktop.alert = some later →
    ∃ earlier, before.desktop.alert = some earlier ∧ later.prompt = earlier.prompt

theorem SameAlert.has {before after : AlertWindow} (hsame : SameAlert before after)
    (hhas : after.Has shown) : before.Has shown := by
  obtain ⟨later, hlater, hshown⟩ := hhas
  obtain ⟨earlier, hearlier, hprompt⟩ := hsame.alert later hlater
  rw [hprompt, hsame.listed, hsame.scopeShown] at hshown
  exact ⟨earlier, hearlier, hshown⟩

theorem SameAlert.aligned {before after : AlertWindow} (hsame : SameAlert before after)
    (haligned : before.Aligned) : after.Aligned := by
  intro later hlater
  obtain ⟨earlier, hearlier, hprompt⟩ := hsame.alert later hlater
  rw [hsame.scopeShown, hprompt]
  exact haligned earlier hearlier

theorem sameAlert_toggleDetails (window : AlertWindow) : SameAlert window window.toggleDetails := by
  refine ⟨rfl, rfl, fun later hlater ↦ ?_⟩
  obtain ⟨earlier, hearlier, rfl⟩ := Option.map_eq_some_iff.mp hlater
  exact ⟨earlier, hearlier, rfl⟩

theorem sameAlert_submitted (window : AlertWindow) (reply : Except String Unit) :
    SameAlert window (window.submitted reply) := by
  refine ⟨rfl, rfl, fun later hlater ↦ ?_⟩
  cases reply with
  | ok _ => cases hlater
  | error message =>
    obtain ⟨earlier, hearlier, rfl⟩ := Option.map_eq_some_iff.mp hlater
    exact ⟨earlier, hearlier, rfl⟩

/-- An answer is sent for the alert and with its scope. Assumes: the scope was chosen for a row with
the id of the alert, and the verdict sends the answer. -/
theorem alert_of_submit {verdict : AlertVerdict} {answer : Submission} (haligned : window.Aligned)
    (hsubmit : window.submit verdict = some answer) :
    ∃ alert, window.desktop.alert = some alert ∧
      answer.verdictShown = ⟨alert.prompt, window.listed⟩ ∧
      answer.scopeShown = window.scopeShown ∧ answer.Aligned := by
  unfold submit at hsubmit
  split at hsubmit
  · next alert id words scope halert hframe =>
    obtain rfl := Option.some.inj hsubmit
    have hid : id = alert.prompt.id := by
      rw [Desktop.submitVerdict, halert, Option.bind_some, ConnectionAlert.answerFrame] at hframe
      split_ifs at hframe
      exact (Prod.mk.inj (Option.some.inj hframe)).1.symm
    exact ⟨alert, halert, rfl, rfl, hid, hid.trans (haligned alert halert).symm⟩
  · cases hsubmit

end AlertWindow

/-! ### What the daemon keeps -/

namespace PolicyStore

/-- An answer that is accepted is about the prompt of its id. Assumes: it is accepted. -/
theorem key_of_records {inputs : PolicyInputs} {store : PolicyStore} {id : UInt64}
    {verdict scope : String} {answered : Answered}
    (hrecords : store.Records inputs id verdict scope answered) :
    ∃ prompt, store.prompts.value.prompts.get id = some prompt ∧ prompt.key = answered.key := by
  obtain ⟨answer, lifetime, _, hanswer, hfirst⟩ := hrecords
  cases hget : (store.prompts.value.expire inputs.expireNow).prompts.get id with
  | none =>
    rw [PromptQueue.answer_of_missing hget] at hanswer
    cases hanswer
  | some after =>
    have hkey : after.key = answered.key := by
      cases hstate : after.state with
      | pending =>
        rw [PromptQueue.answer_of_pending hget hstate] at hanswer
        rw [← Except.ok.inj hanswer]
      | answered =>
        rw [PromptQueue.answer_of_answered hget hstate] at hanswer
        rw [← Except.ok.inj hanswer]
      | expired =>
        rw [PromptQueue.answer_of_expired hget hstate] at hanswer
        cases hanswer
    obtain ⟨prompt, hprompt, rfl | rfl⟩ := PromptQueue.exists_of_get_expire hget
    · exact ⟨after, hprompt, hkey⟩
    · exact ⟨prompt, hprompt, hkey⟩

theorem extends_expirePrompts (store : PolicyStore) (now : Instant) :
    store.prompts.value.Extends (store.expirePrompts now).prompts.value := by
  unfold expirePrompts
  split
  · exact .refl _
  · next prompts hlock =>
    rw [Mutex.value_of_lock hlock]
    exact prompts.extends_expire now

theorem extends_promptList (store : PolicyStore) (expireNow now : Instant) :
    store.prompts.value.Extends (store.promptList expireNow now).1.prompts.value := by
  unfold promptList
  split
  · exact .refl _
  · next prompts hlock =>
    rw [Mutex.value_of_lock hlock]
    exact prompts.extends_expire expireNow

/-- Enqueuing takes no prompt away. Assumes: no earlier prompt has the next id. -/
theorem extends_step_enqueue {store : PolicyStore}
    (hfree : store.prompts.value.prompts.get store.prompts.value.nextId = none) (toml : Toml)
    (expireNow createNow : Instant) (key : PromptKey) :
    store.prompts.value.Extends
      (store.step toml (.enqueue expireNow createNow key)).prompts.value := by
  unfold step
  dsimp only
  split
  · next prompts hlock =>
    rw [Mutex.value_of_lock hlock] at hfree ⊢
    exact PromptQueue.extends_enqueue hfree expireNow createNow key
  · exact .refl _

/-- A request takes no prompt away. -/
theorem extends_step_request (toml : Toml) (inputs : PolicyInputs) (store : PolicyStore)
    (request : PolicyRequest) :
    store.prompts.value.Extends (store.step toml (.request inputs request)).prompts.value := by
  have hmutate : ∀ change, (store.mutate toml inputs change).1.prompts = store.prompts := by
    intro change
    unfold mutate
    split_ifs
    · rfl
    · exact prompts_changeRules toml inputs.save change store
  have hrecord : ∀ answered, store.prompts.value.Extends
      (store.recorded inputs answered).prompts.value := fun answered ↦
    (PromptQueue.extends_expire _ _).trans (PromptQueue.extends_record _ _ _ _ _ _)
  cases request with
  | ruleAdd id executable verdict port =>
    rw [step, handle, hmutate]
    exact .refl _
  | ruleDelete id =>
    rw [step, handle, hmutate]
    exact .refl _
  | promptAnswer id verdict scope =>
    rw [step, handle]
    rcases promptAnswer_cases toml inputs id verdict scope store with ⟨code, hanswer⟩ |
      ⟨code, hanswer⟩ | ⟨answer, lifetime, prompt, hreaches, hget, hcases⟩
    · rw [hanswer]
      exact .refl _
    · rw [hanswer]
      exact PromptQueue.extends_expire _ _
    · rcases hcases with ⟨_, hanswer⟩ | ⟨_, _, hanswer⟩ | ⟨hpending, hlasting⟩
      · rw [hanswer]
        exact PromptQueue.extends_expire _ _
      · rw [hanswer]
        exact hrecord _
      · rw [promptAnswer_of_lasting hreaches hlasting hget hpending, prompts_changeRules]
        exact hrecord _

/-- A daemon that has just been started has no prompts. Assumes: it started. -/
theorem keyed_start {toml : Toml} {directory : RulesDirectory} {store : PolicyStore}
    (hstart : start toml directory = some store) : store.prompts.value.Keyed := by
  unfold start at hstart
  split at hstart
  · obtain rfl := Option.some.inj hstart
    intro id prompt hget
    cases hget
  · cases hstart

end PolicyStore

end InterFire
