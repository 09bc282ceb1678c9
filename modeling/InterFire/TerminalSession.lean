import InterFire.Library.Channel
import InterFire.TerminalCommands

/-!
# The terminal client and the daemon

`spawn` of `crates/interfire-tui/src/ipc.rs`: the loop of the status, the loop of the lists and the
loop of the commands, each with one request at a time. A loop writes a line, the daemon answers it at
some later moment, and the loop reads what has arrived of the answer when the connection ends or the
line does. What it makes of that goes to the application through a queue, as the commands of the
application come to it through another. Between any two steps the daemon does what it wants.

`shown_answers_were_given` leads every report on the screen back to an answer of the daemon, an answer
of its own, and those of one loop in the order of the answers. `terminal_success_is_real` leads every
reported success back to a key: the daemon has carried out what this key asked for.
-/

set_option autoImplicit false
set_option relaxedAutoImplicit false

namespace InterFire

open Run

/-- The message of an error response. -/
def parseErrorMessage (frame : List Char) : Option String :=
  let line := frame.rdropWhile fun character ↦ character = '\r' ∨ character = '\n'
  (line.dropPrefix? "v1 error ".toList).map String.ofList

namespace Terminal

/-! ### Requests of the client -/

/-- What the client asks for by itself. -/
inductive Fetch
  | status
  | statsSummary
  | rules
  | prompts
  | processes
  deriving DecidableEq, Repr

namespace Fetch

def line : Fetch → String
  | status => "v1 status\n"
  | statsSummary => "v1 stats-summary\n"
  | rules => "v1 rule-list\n"
  | prompts => "v1 prompt-list\n"
  | processes => "v1 process-list\n"

/-- The event of a frame that can be read, or the error. -/
def read (fetch : Fetch) (frame : List Char) : Except String IpcEvent :=
  match fetch with
  | status => ((DaemonStatus.parse frame).map .status).mapError fun _ ↦ "malformed_status"
  | statsSummary =>
    ((StatsSummary.parse frame).map .statsSummary).mapError fun _ ↦ "malformed_stats_summary"
  | rules => ((RuleRow.parseFrame frame).map .rules).mapError fun _ ↦ "malformed_rules"
  | prompts => ((PromptRow.parseFrame frame).map .prompts).mapError fun _ ↦ "malformed_prompts"
  | processes =>
    ((ProcessRow.parseFrame frame).map .processes).mapError fun _ ↦ "malformed_processes"

end Fetch

/-- Why a request is under way: a command of the user, the list after a change, or a poll. -/
inductive Errand
  | entered (command : IpcCommand)
  | refetch (fetch : Fetch)
  | poll (fetch : Fetch)
  deriving DecidableEq, Repr

def Errand.line : Errand → String
  | .entered command => command.line
  | .refetch fetch | .poll fetch => fetch.line

/-- What an errand comes to: at most one event, and the next errand of the loop. -/
structure Outcome where
  event : Option IpcEvent
  next : Option Errand
  deriving DecidableEq, Repr

/-- A change that the daemon is to make: its success, and the list to fetch then. -/
def mutated (success : String) (refetch : Option Fetch) : Except String (List Char) → Outcome
  | .ok frame =>
    if "v1 pong".toList <+: frame then ⟨some (.actionOk success), refetch.map .refetch⟩
    else
      ⟨some (.actionError
        ((parseErrorMessage frame).getD (String.ofList (Text.trim frame)))), none⟩
  | .error error => ⟨some (.actionError error), none⟩

/-- `handle_command`, once the line is read or has failed. -/
def IpcCommand.finish (command : IpcCommand) (reply : Except String (List Char)) : Outcome :=
  let refreshed := fun fetch : Fetch ↦
    match reply.bind fetch.read with
    | .ok event => Outcome.mk (some event) none
    | .error error => ⟨some (.actionError error), none⟩
  match command with
  | .refreshRules => refreshed .rules
  | .refreshPrompts => refreshed .prompts
  | .deleteRule id => mutated ("deleted rule " ++ decimal id.toNat) (some .rules) reply
  | .addRule rule => mutated ("added rule " ++ decimal rule.id.toNat) (some .rules) reply
  | .answerPrompt id verdict scope =>
    mutated ("answered prompt " ++ decimal id.toNat ++ " " ++ verdict ++ "/" ++ scope)
      (some .prompts) reply
  | .trafficBlock scope direction =>
    mutated ("traffic blocked scope=" ++ scope ++ " direction=" ++ direction) none reply
  | .trafficUnblock scope => mutated ("traffic unblocked scope=" ++ scope) none reply

/-- What is shown when the daemon answers a command with pong. -/
def IpcCommand.success (command : IpcCommand) : Option IpcEvent :=
  (command.finish (.ok "v1 pong\n".toList)).event

/-- What a loop makes of what it has read, and what it asks for next. Only the poll of the status and
the commands report a failure. -/
def Errand.finish (errand : Errand) (reply : Except String (List Char)) : Outcome :=
  match errand with
  | .entered command => command.finish reply
  | .refetch fetch => ⟨(reply.bind fetch.read).toOption, none⟩
  | .poll .status =>
    match reply.bind Fetch.status.read with
    | .ok event => ⟨some event, some (.poll .statsSummary)⟩
    | .error error => ⟨some (.down error), some (.poll .statsSummary)⟩
  | .poll .rules => ⟨(reply.bind Fetch.rules.read).toOption, some (.poll .prompts)⟩
  | .poll .prompts => ⟨(reply.bind Fetch.prompts.read).toOption, some (.poll .processes)⟩
  | .poll fetch => ⟨(reply.bind fetch.read).toOption, none⟩

/-! ### Reading an answer -/

/-- How a read of a line ends: with an error, or with as many characters as had arrived. -/
inductive Arrival
  | failed (error : String)
  | received (characters : ℕ)
  deriving DecidableEq, Repr

/-- The characters that a daemon writes. A connection that is closed without an answer has none. -/
def written (response : Option Response) : List Char :=
  (response.map fun response ↦ response.encode.toList).getD []

/-- The first line of a text, with its newline. -/
def firstLine (text : List Char) : List Char :=
  text.takeWhile (· ≠ '\n') ++ if '\n' ∈ text then ['\n'] else []

/-- `one_shot` after the request is written. -/
def readLine (text : List Char) : Arrival → Except String (List Char)
  | .failed error => .error error
  | .received characters =>
    if maxFrameBytes < Text.byteLength (firstLine (text.take characters)) then
      .error "frame_too_large"
    else .ok (firstLine (text.take characters))

/-! ### The session -/

/-- The loops with requests. -/
inductive Loop
  | status
  | lists
  | commands
  deriving DecidableEq, Repr

/-- Where a loop is: between its errands, waiting for an answer, or about to read one. -/
inductive Stage
  | idle
  | asked (errand : Errand)
  | answered (errand : Errand) (response : Option Response)

/-- The stage of a loop that has this to do next. -/
def Stage.ofErrand : Option Errand → Stage
  | none => .idle
  | some errand => .asked errand

/-- The client and the daemon, with the two queues of the client. -/
structure Session where
  daemon : ServingDaemon
  app : App
  commands : List IpcCommand
  events : List IpcEvent
  stage : Loop → Stage

/-- What the loop of the audit stream reports; `AuditClients` has the loop itself. -/
inductive StreamEvent
  | ready
  | audit (record : AuditStreamRecord)
  deriving DecidableEq, Repr

def StreamEvent.event : StreamEvent → IpcEvent
  | .ready => .subscriptionReady
  | .audit record => .audit record

/-- A key, the oldest event, the start of a round of a loop, an answer, a read, an event of the audit
stream, or something that the daemon does besides. -/
inductive SessionOp
  | key (code : KeyCode)
  | deliver
  | start (loop : Loop)
  | answer (loop : Loop) (context : RequestContext) (listing : Option String)
  | read (loop : Loop) (arrival : Arrival)
  | stream (event : StreamEvent)
  | daemon (op : ServingOp)
  | restart (daemon : ServingDaemon)

namespace Session

/-- The command that a key gives. -/
def enteredCommand (session : Session) (code : KeyCode) : Option IpcCommand :=
  match (session.app.handleKey code).2 with
  | .command command => some command
  | _ => none

/-- The errand that a round of a loop starts with. The loop of the commands takes the oldest one. -/
def firstErrand (session : Session) : Loop → Option Errand
  | .status => some (.poll .status)
  | .lists => some (.poll .rules)
  | .commands => session.commands.head?.map .entered

/-- The errand of a loop that waits, with what has been answered. -/
def reading (session : Session) (loop : Loop) : Option (Errand × Option Response) :=
  match session.stage loop with
  | .idle => none
  | .asked errand => some (errand, none)
  | .answered errand response => some (errand, response)

/-- What a loop makes of what it reads. -/
def outcome (session : Session) (loop : Loop) (arrival : Arrival) : Option Outcome :=
  (session.reading loop).map fun found ↦ found.1.finish (readLine (written found.2) arrival)

def withStage (session : Session) (loop : Loop) (stage : Stage) : Session :=
  { session with stage := Function.update session.stage loop stage }

def step (toml : Toml) (session : Session) : SessionOp → Session
  | .key code =>
    { session with
      app := (session.app.handleKey code).1
      commands := session.commands ++ (session.enteredCommand code).toList }
  | .deliver =>
    match session.events with
    | [] => session
    | event :: rest => { session with app := session.app.apply event, events := rest }
  | .start loop =>
    match session.stage loop, session.firstErrand loop with
    | .idle, some errand =>
      { session.withStage loop (.asked errand) with
        commands := if loop = .commands then session.commands.tail else session.commands }
    | _, _ => session
  | .answer loop context listing =>
    match session.stage loop with
    | .asked errand =>
      let (daemon, response) :=
        session.daemon.handle toml context listing errand.line.toList
      { session.withStage loop (.answered errand response) with daemon }
    | _ => session
  | .read loop arrival =>
    match session.outcome loop arrival with
    | none => session
    | some outcome =>
      { session.withStage loop (.ofErrand outcome.next) with
        events := session.events ++ outcome.event.toList }
  | .stream event => { session with events := session.events ++ [event.event] }
  | .daemon op => { session with daemon := session.daemon.step toml op }
  | .restart daemon => { session with daemon }

/-! ### The queues of the client, and the requests of a loop -/

/-- The errand that a loop waits for an answer to. -/
def asking (session : Session) (loop : Loop) : Option Errand :=
  match session.stage loop with
  | .asked errand => some errand
  | _ => none

/-- The errand of a loop that is answered, with the answer. -/
def answering (session : Session) (loop : Loop) : Option (Errand × Option Response) :=
  match session.stage loop with
  | .answered errand response => some (errand, response)
  | _ => none

/-- The errand that a loop starts, with a round or after another. -/
def begun (loop : Loop) (session : Session) : SessionOp → Option Errand
  | .start other =>
    match session.stage other with
    | .idle => if other = loop then session.firstErrand loop else none
    | _ => none
  | .read other arrival =>
    if other = loop then (session.outcome loop arrival).bind Outcome.next else none
  | _ => none

/-- The errand that is answered or given up. -/
def settled (loop : Loop) (session : Session) : SessionOp → Option Errand
  | .answer other _ _ | .read other _ => if other = loop then session.asking loop else none
  | _ => none

/-- The errand that the daemon answers, with the answer. -/
def replied (toml : Toml) (loop : Loop) (session : Session) :
    SessionOp → Option (Errand × Option Response)
  | .answer other context listing =>
    if other = loop then
      (session.asking loop).map fun errand ↦
        (errand, (session.daemon.handle toml context listing errand.line.toList).2)
    else none
  | _ => none

/-- The answered errand that is read. -/
def readBack (loop : Loop) (session : Session) : SessionOp → Option (Errand × Option Response)
  | .read other _ => if other = loop then session.answering loop else none
  | _ => none

/-- The command that the loop of the commands takes. -/
def taken (session : Session) : SessionOp → Option IpcCommand
  | .start .commands =>
    match session.stage .commands with
    | .idle => session.commands.head?
    | _ => none
  | _ => none

def entered (session : Session) : SessionOp → Option IpcCommand
  | .key code => session.enteredCommand code
  | _ => none

/-- The event that a loop puts into the queue. -/
def reported (session : Session) : SessionOp → Option IpcEvent
  | .read loop arrival => (session.outcome loop arrival).bind Outcome.event
  | .stream event => some event.event
  | _ => none

/-- The event that is shown. -/
def shown (session : Session) : SessionOp → Option IpcEvent
  | .deliver => session.events.head?
  | _ => none

@[simp] theorem stage_withStage (session : Session) (loop : Loop) (stage : Stage) :
    (session.withStage loop stage).stage = Function.update session.stage loop stage := rfl

/-- What the start of a round does: nothing, or the idle loop asks for its first errand. -/
theorem start_cases (toml : Toml) (session : Session) (loop : Loop) :
    (session.step toml (.start loop) = session ∧ session.taken (.start loop) = none ∧
        ∀ other, session.begun other (.start loop) = none) ∨
      ∃ errand, session.stage loop = .idle ∧ session.firstErrand loop = some errand ∧
        session.step toml (.start loop) =
          { session.withStage loop (.asked errand) with
            commands := if loop = .commands then session.commands.tail else session.commands } := by
  cases hstage : session.stage loop with
  | idle =>
    cases hfirst : session.firstErrand loop with
    | none =>
      refine .inl ⟨by simp [step, hstage, hfirst], ?_, fun other ↦ ?_⟩
      · cases loop with
        | commands => simpa [taken, hstage, firstErrand] using hfirst
        | _ => rfl
      · simp only [begun, hstage]
        split_ifs with heq
        · rw [← heq, hfirst]
        · rfl
    | some errand => exact .inr ⟨errand, rfl, rfl, by simp [step, hstage, hfirst]⟩
  | asked errand =>
    refine .inl ⟨by simp [step, hstage], ?_, fun other ↦ by simp [begun, hstage]⟩
    cases loop <;> simp [taken, hstage]
  | answered errand response =>
    refine .inl ⟨by simp [step, hstage], ?_, fun other ↦ by simp [begun, hstage]⟩
    cases loop <;> simp [taken, hstage]

/-- What a read does: nothing, or the loop goes on with the next errand. -/
theorem read_cases (toml : Toml) (session : Session) (loop : Loop) (arrival : Arrival) :
    (session.outcome loop arrival = none ∧ session.stage loop = .idle ∧
        session.step toml (.read loop arrival) = session) ∨
      ∃ outcome, session.outcome loop arrival = some outcome ∧
        session.step toml (.read loop arrival) =
          { session.withStage loop (.ofErrand outcome.next) with
            events := session.events ++ outcome.event.toList } := by
  cases houtcome : session.outcome loop arrival with
  | none =>
    refine .inl ⟨rfl, ?_, by simp [step, houtcome]⟩
    cases hstage : session.stage loop <;> simp [outcome, reading, hstage] at houtcome ⊢
  | some outcome => exact .inr ⟨outcome, rfl, by simp [step, houtcome]⟩

/-- What an answer does: nothing, or the loop that asked has the answer. -/
theorem answer_cases (toml : Toml) (session : Session) (loop : Loop) (context : RequestContext)
    (listing : Option String) :
    (session.asking loop = none ∧ session.step toml (.answer loop context listing) = session) ∨
      ∃ errand, session.stage loop = .asked errand ∧
        session.step toml (.answer loop context listing) =
          { session.withStage loop (.answered errand
              (session.daemon.handle toml context listing errand.line.toList).2) with
            daemon := (session.daemon.handle toml context listing errand.line.toList).1 } := by
  cases hstage : session.stage loop with
  | asked errand => exact .inr ⟨errand, rfl, by simp [step, hstage]⟩
  | idle => exact .inl ⟨by simp [asking, hstage], by simp [step, hstage]⟩
  | answered errand response => exact .inl ⟨by simp [asking, hstage], by simp [step, hstage]⟩

/-- The commands, from the keys to the loop that carries them out. -/
def commandChannel (toml : Toml) : Channel Session SessionOp IpcCommand where
  step := step toml
  items := commands
  sent := entered
  received := taken
  items_step session op := by
    cases op with
    | start loop =>
      rcases start_cases toml session loop with ⟨hsame, htaken, _⟩ | ⟨errand, hidle, hfirst, hstep⟩
      · exact ⟨session.commands, by simp [htaken], by simp [hsame, entered]⟩
      · rw [hstep]
        cases loop with
        | commands =>
          cases hcommands : session.commands with
          | nil => simp [firstErrand, hcommands] at hfirst
          | cons command rest =>
            exact ⟨rest, by simp [taken, hidle, hcommands], by simp [entered]⟩
        | _ => exact ⟨session.commands, rfl, by simp [entered]⟩
    | read loop arrival =>
      refine ⟨session.commands, rfl, ?_⟩
      rcases read_cases toml session loop arrival with ⟨_, _, hstep⟩ | ⟨outcome, _, hstep⟩
      all_goals simp [hstep, entered, withStage]
    | answer loop context listing =>
      refine ⟨session.commands, rfl, ?_⟩
      rcases answer_cases toml session loop context listing with ⟨_, hstep⟩ | ⟨errand, _, hstep⟩
      all_goals simp [hstep, entered, withStage]
    | deliver =>
      refine ⟨session.commands, rfl, ?_⟩
      simp only [step, entered, Option.toList_none, List.append_nil]
      split <;> rfl
    | key code => exact ⟨session.commands, rfl, rfl⟩
    | _ => exact ⟨session.commands, rfl, by simp [step, entered]⟩

/-- The events, from the loops to the application. -/
def eventChannel (toml : Toml) : Channel Session SessionOp IpcEvent where
  step := step toml
  items := events
  sent := reported
  received := shown
  items_step session op := by
    cases op with
    | deliver =>
      cases hevents : session.events with
      | nil => exact ⟨[], by simp [shown, hevents], by simp [step, reported, hevents]⟩
      | cons event rest => exact ⟨rest, by simp [shown, hevents], by simp [step, reported, hevents]⟩
    | start loop =>
      refine ⟨session.events, rfl, ?_⟩
      rcases start_cases toml session loop with ⟨hstep, _⟩ | ⟨errand, _, _, hstep⟩
      all_goals simp [hstep, reported, withStage]
    | read loop arrival =>
      refine ⟨session.events, rfl, ?_⟩
      rcases read_cases toml session loop arrival with ⟨hnone, _, hstep⟩ | ⟨outcome, hsome, hstep⟩
      · simp [hstep, reported, hnone]
      · simp [hstep, reported, hsome]
    | answer loop context listing =>
      refine ⟨session.events, rfl, ?_⟩
      rcases answer_cases toml session loop context listing with ⟨_, hstep⟩ | ⟨errand, _, hstep⟩
      all_goals simp [hstep, reported, withStage]
    | stream event => exact ⟨session.events, rfl, by simp [step, reported]⟩
    | _ => exact ⟨session.events, rfl, by simp [step, reported]⟩

/-- The errands of a loop, from their start until they are answered or given up. -/
def askChannel (toml : Toml) (loop : Loop) : Channel Session SessionOp Errand where
  step := step toml
  items session := (session.asking loop).toList
  sent := begun loop
  received := settled loop
  items_step session op := by
    cases op with
    | start other =>
      refine ⟨(session.asking loop).toList, rfl, ?_⟩
      rcases start_cases toml session other with ⟨hstep, _, hbegun⟩ | ⟨errand, hidle, hfirst, hstep⟩
      · simp [hstep, hbegun]
      · by_cases heq : other = loop
        · subst heq
          simp [hstep, asking, hidle, begun, hfirst]
        · simp [hstep, asking, begun, hidle, heq, Function.update_of_ne (Ne.symm heq)]
    | read other arrival =>
      by_cases heq : other = loop
      · subst heq
        refine ⟨[], by simp [settled], ?_⟩
        rcases read_cases toml session other arrival with
          ⟨hnone, hidle, hstep⟩ | ⟨outcome, hsome, hstep⟩
        · simp [hstep, begun, hnone, asking, hidle]
        · cases hnext : outcome.next <;> simp [hstep, begun, hsome, asking, Stage.ofErrand, hnext]
      · refine ⟨(session.asking loop).toList, by simp [settled, heq], ?_⟩
        rcases read_cases toml session other arrival with ⟨_, _, hstep⟩ | ⟨outcome, _, hstep⟩
        · simp [hstep, begun, heq]
        · simp [hstep, begun, heq, asking, Function.update_of_ne (Ne.symm heq)]
    | answer other context listing =>
      by_cases heq : other = loop
      · subst heq
        refine ⟨[], by simp [settled], ?_⟩
        rcases answer_cases toml session other context listing with
          ⟨hnone, hstep⟩ | ⟨errand, _, hstep⟩
        · simp [hstep, begun, hnone]
        · simp [hstep, begun, asking]
      · refine ⟨(session.asking loop).toList, by simp [settled, heq], ?_⟩
        rcases answer_cases toml session other context listing with ⟨_, hstep⟩ | ⟨errand, _, hstep⟩
        · simp [hstep, begun]
        · simp [hstep, begun, asking, Function.update_of_ne (Ne.symm heq)]
    | deliver =>
      refine ⟨(session.asking loop).toList, rfl, ?_⟩
      simp only [step, begun, Option.toList_none, List.append_nil]
      split <;> rfl
    | _ => exact ⟨_, rfl, (List.append_nil _).symm⟩

/-- The answers to a loop, from the daemon to the read. -/
def answerChannel (toml : Toml) (loop : Loop) :
    Channel Session SessionOp (Errand × Option Response) where
  step := step toml
  items session := (session.answering loop).toList
  sent := replied toml loop
  received := readBack loop
  items_step session op := by
    cases op with
    | start other =>
      refine ⟨(session.answering loop).toList, rfl, ?_⟩
      rcases start_cases toml session other with ⟨hstep, _⟩ | ⟨errand, hidle, _, hstep⟩
      · simp [hstep, replied]
      · by_cases heq : other = loop
        · subst heq
          simp [hstep, answering, hidle, replied]
        · simp [hstep, answering, replied, Function.update_of_ne (Ne.symm heq)]
    | read other arrival =>
      by_cases heq : other = loop
      · subst heq
        refine ⟨[], by simp [readBack], ?_⟩
        rcases read_cases toml session other arrival with
          ⟨_, hidle, hstep⟩ | ⟨outcome, _, hstep⟩
        · simp [hstep, replied, answering, hidle]
        · cases hnext : outcome.next <;> simp [hstep, replied, answering, Stage.ofErrand, hnext]
      · refine ⟨(session.answering loop).toList, by simp [readBack, heq], ?_⟩
        rcases read_cases toml session other arrival with ⟨_, _, hstep⟩ | ⟨outcome, _, hstep⟩
        · simp [hstep, replied]
        · simp [hstep, replied, answering, Function.update_of_ne (Ne.symm heq)]
    | answer other context listing =>
      refine ⟨(session.answering loop).toList, rfl, ?_⟩
      by_cases heq : other = loop
      · subst heq
        rcases answer_cases toml session other context listing with
          ⟨hnone, hstep⟩ | ⟨errand, hstage, hstep⟩
        · simp [hstep, replied, hnone]
        · simp [hstep, replied, answering, asking, hstage]
      · rcases answer_cases toml session other context listing with ⟨_, hstep⟩ | ⟨errand, _, hstep⟩
        · simp [hstep, replied, heq]
        · simp [hstep, replied, heq, answering, Function.update_of_ne (Ne.symm heq)]
    | deliver =>
      refine ⟨(session.answering loop).toList, rfl, ?_⟩
      simp only [step, replied, Option.toList_none, List.append_nil]
      split <;> rfl
    | _ => exact ⟨_, rfl, (List.append_nil _).symm⟩

end Session

/-! ### What an event goes back to -/

/-- The event shows what the daemon has answered. -/
def IpcEvent.Reports : IpcEvent → Prop
  | .status _ | .statsSummary _ | .rules _ | .prompts _ | .processes _ | .actionOk _ => True
  | _ => False

/-- Nothing that was read is the empty text. -/
theorem readLine_written_none {arrival : Arrival} {frame : List Char}
    (hread : readLine (written none) arrival = .ok frame) : frame = [] := by
  cases arrival with
  | failed error => cases hread
  | received characters =>
    simp only [readLine, written, Option.map_none, Option.getD_none, List.take_nil] at hread
    split_ifs at hread
    exact (Except.ok.inj hread).symm

/-- The empty text is no list and no status. -/
theorem Fetch.read_nil (fetch : Fetch) (event : IpcEvent) : fetch.read [] ≠ .ok event := by
  cases fetch <;> exact nofun

/-- A fetch is no success of a change. -/
theorem Fetch.read_ne_actionOk (fetch : Fetch) (frame : List Char) (message : String) :
    fetch.read frame ≠ .ok (.actionOk message) := by
  intro hread
  cases fetch with
  | status => cases hparse : DaemonStatus.parse frame <;> rw [read, hparse] at hread <;> cases hread
  | statsSummary =>
    cases hparse : StatsSummary.parse frame <;> rw [read, hparse] at hread <;> cases hread
  | rules => cases hparse : RuleRow.parseFrame frame <;> rw [read, hparse] at hread <;> cases hread
  | prompts =>
    cases hparse : PromptRow.parseFrame frame <;> rw [read, hparse] at hread <;> cases hread
  | processes =>
    cases hparse : ProcessRow.parseFrame frame <;> rw [read, hparse] at hread <;> cases hread

/-- Without an answer a change is an error. Assumes: nothing was read. -/
theorem mutated_of_unread (success : String) (refetch : Option Fetch)
    {reply : Except String (List Char)} (hunread : ∀ frame, reply = .ok frame → frame = []) :
    ∃ message, mutated success refetch reply = ⟨some (.actionError message), none⟩ := by
  cases reply with
  | error error => exact ⟨error, rfl⟩
  | ok frame =>
    obtain rfl := hunread frame rfl
    exact ⟨(parseErrorMessage []).getD (String.ofList (Text.trim [])), by simp [mutated]⟩

/-- Without an answer nothing is reported. Assumes: the event is a report of the errand. -/
theorem Errand.answered_of_reports {errand : Errand} {response : Option Response}
    {arrival : Arrival} {event : IpcEvent} (hreports : event.Reports)
    (hevent : (errand.finish (readLine (written response) arrival)).event = some event) :
    ∃ answer, response = some answer := by
  cases response with
  | some answer => exact ⟨answer, rfl⟩
  | none =>
    exfalso
    have hunread : ∀ frame, readLine (written none) arrival = .ok frame → frame = [] :=
      fun frame ↦ readLine_written_none
    generalize readLine (written none) arrival = reply at hunread hevent
    have hfetched : ∀ fetch : Fetch, ∃ error, reply.bind fetch.read = .error error := by
      intro fetch
      cases hread : reply.bind fetch.read with
      | error error => exact ⟨error, rfl⟩
      | ok found =>
        cases reply with
        | error error => cases hread
        | ok frame =>
          obtain rfl := hunread frame rfl
          exact absurd hread (fetch.read_nil found)
    have hmutated : ∀ success refetch, (mutated success refetch reply).event ≠ some event := by
      intro success refetch hsome
      obtain ⟨message, herror⟩ := mutated_of_unread success refetch hunread
      rw [herror] at hsome
      obtain rfl := Option.some.inj hsome
      exact hreports
    cases errand with
    | refetch fetch =>
      obtain ⟨error, herror⟩ := hfetched fetch
      simp [finish, herror, Except.toOption] at hevent
    | poll fetch =>
      obtain ⟨error, herror⟩ := hfetched fetch
      cases fetch with
      | status =>
        simp only [finish, herror, Option.some.injEq] at hevent
        exact absurd hreports (by simp [← hevent, IpcEvent.Reports])
      | _ => simp [finish, herror, Except.toOption] at hevent
    | entered command =>
      cases command with
      | refreshRules | refreshPrompts =>
        obtain ⟨rules, hrules⟩ := hfetched .rules
        obtain ⟨prompts, hprompts⟩ := hfetched .prompts
        simp only [finish, IpcCommand.finish, hrules, hprompts, Option.some.injEq] at hevent
        exact absurd hreports (by simp [← hevent, IpcEvent.Reports])
      | _ => exact hmutated _ _ hevent

/-- A change that succeeds has read what starts like pong. Assumes: its event is a success. -/
theorem of_mutated_actionOk {success message : String} {refetch : Option Fetch}
    {reply : Except String (List Char)}
    (hevent : (mutated success refetch reply).event = some (.actionOk message)) :
    success = message ∧ ∃ frame, reply = .ok frame ∧ "v1 pong".toList <+: frame := by
  cases reply with
  | error error => cases hevent
  | ok frame =>
    unfold mutated at hevent
    dsimp only at hevent
    split_ifs at hevent with hpong
    · obtain rfl := IpcEvent.actionOk.inj (Option.some.inj hevent)
      exact ⟨rfl, frame, rfl, hpong⟩
    · cases hevent

theorem firstLine_cons (character : Char) (rest : List Char) :
    firstLine (character :: rest) =
      if character = '\n' then ['\n'] else character :: firstLine rest := by
  by_cases hnewline : character = '\n'
  · simp [firstLine, hnewline]
  · simp [firstLine, hnewline, Ne.symm hnewline]

theorem begins_firstLine (text : List Char) : firstLine text <+: text := by
  induction text with
  | nil => exact List.prefix_rfl
  | cons character rest ih =>
    rw [firstLine_cons]
    split_ifs with hnewline
    · subst hnewline
      exact List.prefix_append ['\n'] rest
    · exact List.prefix_cons_inj character |>.mpr ih

/-- What is read is the start of what was written. Assumes: the read succeeds. -/
theorem prefix_of_readLine {text frame : List Char} {arrival : Arrival}
    (hread : readLine text arrival = .ok frame) : frame <+: text := by
  cases arrival with
  | failed error => cases hread
  | received characters =>
    simp only [readLine] at hread
    split_ifs at hread
    obtain rfl := Except.ok.inj hread
    exact (begins_firstLine _).trans (List.take_prefix characters text)

/-- How the frames of the responses other than pong start. -/
def frameStarts : List String :=
  ["v1 status ", "v1 error ", "v1 rules ", "v1 prompts ", "v1 dns ", "v1 audit-tail ",
    "v1 subscribed ", "v1 processes ", "v1 network ", "v1 stats-summary ", "v1 stats-hosts ",
    "v1 stats-procs ", "v1 stats-addrs ", "v1 stats-ports ", "v1 stats-users "]

theorem exists_frameStart {answer : Response} (hpong : answer ≠ .pong) :
    ∃ label ∈ frameStarts, label.toList <+: answer.encode.toList := by
  have hkeyed : ∀ (label first : String) (rest : List String),
      ("v1 " ++ label ++ " ").toList <+: keyValueFrame label (first :: rest) := by
    intro label first rest
    rw [keyValueFrame, List.map_cons, List.map_cons, List.map_cons, Text.join_cons_cons,
      Text.join_cons_cons]
    simp
  have hlist : ∀ label value : String, label ∈ frameStarts →
      ∃ found ∈ frameStarts, found.toList <+: (label ++ value ++ "\n").toList := by
    intro label value hlabel
    refine ⟨label, hlabel, ?_⟩
    rw [String.append_assoc, String.toList_append]
    exact List.prefix_append _ _
  cases answer with
  | pong => exact absurd rfl hpong
  | status body =>
    rw [DaemonStatus.toList_encode]
    exact ⟨"v1 status ", by decide, hkeyed "status" _ _⟩
  | network body =>
    rw [NetworkStatus.toList_encode]
    exact ⟨"v1 network ", by decide, hkeyed "network" _ _⟩
  | statsSummary body =>
    rw [StatsSummary.toList_encode]
    exact ⟨"v1 stats-summary ", by decide, hkeyed "stats-summary" _ _⟩
  | error value => exact hlist "v1 error " value (by decide)
  | rules value => exact hlist "v1 rules " value (by decide)
  | prompts value => exact hlist "v1 prompts " value (by decide)
  | dns value => exact hlist "v1 dns " value (by decide)
  | audit value => exact hlist "v1 audit-tail " value (by decide)
  | subscribed value => exact hlist "v1 subscribed " value (by decide)
  | processes value => exact hlist "v1 processes " value (by decide)
  | statsHosts value => exact hlist "v1 stats-hosts " value (by decide)
  | statsProcs value => exact hlist "v1 stats-procs " value (by decide)
  | statsAddrs value => exact hlist "v1 stats-addrs " value (by decide)
  | statsPorts value => exact hlist "v1 stats-ports " value (by decide)
  | statsUsers value => exact hlist "v1 stats-users " value (by decide)

/-- Only pong starts like pong. -/
theorem eq_pong_of_begins {answer : Response} (hpong : "v1 pong".toList <+: answer.encode.toList) :
    answer = .pong := by
  by_contra hother
  obtain ⟨label, hlabel, hstart⟩ := exists_frameStart hother
  have hdistinct : ∀ label ∈ frameStarts, ¬ "v1 pong".toList <+: label.toList ∧
      ¬ label.toList <+: "v1 pong".toList := by decide
  rcases List.prefix_or_prefix_of_prefix hpong hstart with hshort | hlong
  · exact (hdistinct label hlabel).1 hshort
  · exact (hdistinct label hlabel).2 hlong

/-- Only a command of the user is reported as a success, and only when the answer is pong. Assumes: the
event is the success. -/
theorem Errand.pong_of_actionOk {errand : Errand} {answer : Response} {arrival : Arrival}
    {message : String}
    (hevent : (errand.finish (readLine (written (some answer)) arrival)).event =
      some (.actionOk message)) :
    answer = .pong ∧ ∃ command, errand = .entered command ∧
      command.success = some (.actionOk message) := by
  have hread : ∀ (fetch : Fetch) (reply : Except String (List Char)),
      reply.bind fetch.read ≠ .ok (.actionOk message) := by
    intro fetch reply hsome
    cases reply with
    | error error => cases hsome
    | ok frame => exact fetch.read_ne_actionOk frame message hsome
  have hquiet : ∀ (fetch : Fetch) (reply : Except String (List Char)),
      (reply.bind fetch.read).toOption ≠ some (.actionOk message) := by
    intro fetch reply hsome
    cases hfetched : reply.bind fetch.read with
    | error error => simp [hfetched, Except.toOption] at hsome
    | ok event =>
      rw [hfetched] at hsome
      obtain rfl := Option.some.inj hsome
      exact hread fetch reply hfetched
  cases errand with
  | refetch fetch => exact absurd hevent (hquiet fetch _)
  | poll fetch =>
    cases fetch with
    | status =>
      simp only [finish] at hevent
      split at hevent
      · next event hevent' =>
        obtain rfl := Option.some.inj hevent
        exact absurd hevent' (hread .status _)
      · cases hevent
    | _ => exact absurd hevent (hquiet _ _)
  | entered command =>
    have hmutated : ∀ success refetch,
        (mutated success refetch (readLine (written (some answer)) arrival)).event =
          some (.actionOk message) → answer = .pong ∧ success = message := by
      intro success refetch hsome
      obtain ⟨hsuccess, frame, hframe, hpong⟩ := of_mutated_actionOk hsome
      exact ⟨eq_pong_of_begins (hpong.trans (prefix_of_readLine hframe)), hsuccess⟩
    have hsuccess : ∀ success refetch,
        (mutated success refetch (.ok "v1 pong\n".toList)).event = some (.actionOk success) := by
      intro success refetch
      have hstart : "v1 pong".toList <+: "v1 pong\n".toList := by decide
      simp only [mutated, if_pos hstart]
    cases command with
    | refreshRules | refreshPrompts =>
      simp only [finish, IpcCommand.finish] at hevent
      split at hevent
      · next event hevent' =>
        obtain rfl := Option.some.inj hevent
        exact absurd hevent' (hread _ _)
      · cases hevent
    | _ =>
      obtain ⟨hpong, rfl⟩ := hmutated _ _ hevent
      exact ⟨hpong, _, rfl, hsuccess _ _⟩

/-- No errand is followed by a command. -/
theorem Errand.next_finish_ne_entered (errand : Errand) (reply : Except String (List Char))
    (command : IpcCommand) : (errand.finish reply).next ≠ some (.entered command) := by
  have hmutated : ∀ success refetch,
      (mutated success refetch reply).next ≠ some (.entered command) := by
    intro success refetch hsome
    unfold mutated at hsome
    split at hsome
    · split_ifs at hsome
      cases refetch <;> cases hsome
    · cases hsome
  cases errand with
  | refetch fetch => exact nofun
  | poll fetch =>
    cases fetch with
    | status =>
      simp only [finish]
      split <;> exact nofun
    | _ => exact nofun
  | entered entered =>
    cases entered with
    | refreshRules | refreshPrompts =>
      simp only [finish, IpcCommand.finish]
      split <;> exact nofun
    | _ => exact hmutated _ _

namespace Session

variable (toml : Toml) (start : Session) (ops : List SessionOp)

/-- A client that has been started, beside a daemon. -/
def spawned (daemon : ServingDaemon) (socket : String) : Session :=
  ⟨daemon, .new socket, [], [], fun _ ↦ .idle⟩

/-- The session before the operation at an index. -/
def stateAt (index : ℕ) : Session := Run.stateAt (step toml) start ops index

/-- The application is given an event at an index. -/
def ShownAt (index : ℕ) (event : IpcEvent) : Prop :=
  RecordedAt (step toml) shown start ops index event

/-- A key gives a command at an index. -/
def EnteredAt (index : ℕ) (command : IpcCommand) : Prop :=
  RecordedAt (step toml) entered start ops index command

/-- The daemon answers an errand of a loop at an index. -/
def AnsweredAt (index : ℕ) (loop : Loop) (errand : Errand) (answer : Response) : Prop :=
  RecordedAt (step toml) (replied toml loop) start ops index (errand, some answer)

/-- The daemon carries out a command at an index: its line is answered with pong, and what the command
asks for is done, if its line is one of words. -/
def CarriedOutAt (index : ℕ) (command : IpcCommand) : Prop :=
  ∃ context listing, ops[index]? = some (.answer .commands context listing) ∧
    let before := (stateAt toml start ops index).daemon
    let after := (stateAt toml start ops (index + 1)).daemon
    before.handle toml context listing command.line.toList = (after, some .pong) ∧
      (command.Unspaced → command.Done toml context before.control after.control)

/-- An event that reports an answer was put into the queue by the read of it. Assumes: a loop puts the
event there. -/
theorem exists_readBack_of_reported {session : Session} {op : SessionOp} {event : IpcEvent}
    (hreported : session.reported op = some event) (hreports : event.Reports) :
    ∃ loop errand answer arrival, op = .read loop arrival ∧
      session.readBack loop op = some (errand, some answer) ∧
      (errand.finish (readLine (written (some answer)) arrival)).event = some event := by
  cases op with
  | read loop arrival =>
    obtain ⟨outcome, houtcome, hevent⟩ := Option.bind_eq_some_iff.mp hreported
    obtain ⟨⟨errand, response⟩, hreading, rfl⟩ := Option.map_eq_some_iff.mp houtcome
    obtain ⟨answer, rfl⟩ := Errand.answered_of_reports hreports hevent
    refine ⟨loop, errand, answer, arrival, rfl, ?_, hevent⟩
    unfold reading at hreading
    cases hstage : session.stage loop with
    | idle => simp [hstage] at hreading
    | asked asked => simp [hstage] at hreading
    | answered found response =>
      simp only [hstage, Option.some.injEq, Prod.mk.injEq] at hreading
      simp [readBack, answering, hstage, hreading]
  | stream event' =>
    exfalso
    cases event' with
    | ready =>
      obtain rfl := Option.some.inj hreported
      exact hreports
    | audit record =>
      obtain rfl := Option.some.inj hreported
      exact hreports
  | _ => cases hreported

/-- Every report on the screen is of an answer of the daemon that no other report is of. The reports of
one loop come in the order of their answers. -/
theorem shown_answers_were_given (daemon : ServingDaemon) (socket : String) :
    ∃ (loop : ℕ → Loop) (answered : ℕ → ℕ),
      (∀ same, StrictMonoOn answered {index | loop index = same ∧ ∃ event, event.Reports ∧
        ShownAt toml (spawned daemon socket) ops index event}) ∧
      ∀ index event, event.Reports → ShownAt toml (spawned daemon socket) ops index event →
        answered index < index ∧ ∃ errand answer arrival,
          AnsweredAt toml (spawned daemon socket) ops (answered index) (loop index) errand answer ∧
          (errand.finish (readLine (written (some answer)) arrival)).event = some event := by
  set start := spawned daemon socket with hstart
  obtain ⟨report, hreportMono, hreport⟩ := (eventChannel toml).sender_strictMono start ops rfl
  choose reply hreplyMono hreply using
    fun loop ↦ (answerChannel toml loop).sender_strictMono start ops rfl
  -- The loop that puts the event into the queue by a read of an answer.
  have hloop : ∀ index, ∃ loop, ∀ event, event.Reports → ShownAt toml start ops index event →
      report index < index ∧ ∃ errand answer arrival,
        RecordedAt (step toml) (readBack loop) start ops (report index) (errand, some answer) ∧
        (errand.finish (readLine (written (some answer)) arrival)).event = some event := by
    intro index
    by_cases hshown : ∃ event, event.Reports ∧ ShownAt toml start ops index event
    · obtain ⟨event, hreports, hevent⟩ := hshown
      obtain ⟨hlt, op, hop, hsent⟩ := hreport index event hevent
      obtain ⟨loop, errand, answer, arrival, rfl, hread, hfinish⟩ :=
        exists_readBack_of_reported hsent hreports
      refine ⟨loop, fun other _ hother ↦ ⟨hlt, errand, answer, arrival, ⟨_, hop, hread⟩, ?_⟩⟩
      obtain ⟨_, hop', hevent'⟩ := hevent
      obtain ⟨_, hop'', hother'⟩ := hother
      obtain rfl := Option.some.inj (hop'.symm.trans hop'')
      rw [hfinish, ← hevent', hother']
    · exact ⟨.status, fun event hreports hevent ↦ absurd ⟨event, hreports, hevent⟩ hshown⟩
  choose loop hread using hloop
  refine ⟨loop, fun index ↦ reply (loop index) (report index), fun same ↦ ?_, ?_⟩
  · rintro first ⟨hfirst, event, hreports, hevent⟩ second ⟨hsecond, other, hreports', hother⟩ hlt
    dsimp only
    rw [hfirst, hsecond]
    obtain ⟨_, errand, answer, arrival, hback, _⟩ := hread first event hreports hevent
    obtain ⟨_, errand', answer', arrival', hback', _⟩ := hread second other hreports' hother
    rw [hfirst] at hback
    rw [hsecond] at hback'
    exact hreplyMono same ⟨_, hback⟩ ⟨_, hback'⟩ (hreportMono ⟨_, hevent⟩ ⟨_, hother⟩ hlt)
  · intro index event hreports hevent
    obtain ⟨hlt, errand, answer, arrival, hback, hfinish⟩ := hread index event hreports hevent
    obtain ⟨hbefore, hanswered⟩ := hreply (loop index) (report index) _ hback
    exact ⟨hbefore.trans hlt, errand, answer, arrival, hanswered, hfinish⟩

/-- A command is begun only by the loop of the commands, when it takes it. Assumes: the errand that is
begun is the command. -/
theorem taken_of_begun {loop : Loop} {session : Session} {op : SessionOp} {command : IpcCommand}
    (hbegun : session.begun loop op = some (.entered command)) :
    loop = .commands ∧ session.taken op = some command := by
  cases op with
  | start other =>
    cases hidle : session.stage other with
    | idle =>
      simp only [begun, hidle] at hbegun
      split_ifs at hbegun with heq
      subst heq
      cases other with
      | commands =>
        obtain ⟨taken', htaken, hcommand⟩ := Option.map_eq_some_iff.mp hbegun
        obtain rfl := Errand.entered.inj hcommand
        exact ⟨rfl, by simp [taken, hidle, htaken]⟩
      | _ => cases hbegun
    | _ => simp [begun, hidle] at hbegun
  | read other arrival =>
    exfalso
    simp only [begun] at hbegun
    split_ifs at hbegun
    obtain ⟨outcome, houtcome, hnext⟩ := Option.bind_eq_some_iff.mp hbegun
    obtain ⟨found, _, rfl⟩ := Option.map_eq_some_iff.mp houtcome
    exact Errand.next_finish_ne_entered _ _ _ hnext
  | _ => cases hbegun

variable {toml start ops}

/-- An answer is to what the loop asked. Assumes: the errand is answered. -/
theorem settledAt_of_answeredAt {index : ℕ} {loop : Loop} {errand : Errand} {answer : Response}
    (hanswered : AnsweredAt toml start ops index loop errand answer) :
    RecordedAt (step toml) (settled loop) start ops index errand := by
  obtain ⟨op, hop, hreplied⟩ := hanswered
  refine ⟨op, hop, ?_⟩
  cases op with
  | answer other context listing =>
    simp only [replied] at hreplied
    split_ifs at hreplied with heq
    obtain ⟨asked, hasking, hpair⟩ := Option.map_eq_some_iff.mp hreplied
    obtain ⟨rfl, _⟩ := Prod.mk.inj hpair
    simp only [settled, if_pos heq]
    exact hasking
  | _ => cases hreplied

/-- A command that the daemon answers with pong is carried out. Assumes: it is, and the command is
offered. -/
theorem carriedOutAt_of_answeredAt {index : ℕ} {command : IpcCommand}
    (hanswered : AnsweredAt toml start ops index .commands (.entered command) .pong)
    (hoffered : command.Offered) : CarriedOutAt toml start ops index command := by
  obtain ⟨op, hop, hreplied⟩ := hanswered
  cases op with
  | answer loop context listing =>
    simp only [replied] at hreplied
    split_ifs at hreplied with hcommands
    subst hcommands
    obtain ⟨errand, hasking, hpair⟩ := Option.map_eq_some_iff.mp hreplied
    obtain ⟨rfl, hpong⟩ := Prod.mk.inj hpair
    set before := (stateAt toml start ops index).daemon with hbefore
    have hafter : (stateAt toml start ops (index + 1)).daemon =
        (before.handle toml context listing command.line.toList).1 := by
      have hstep : stateAt toml start ops (index + 1) =
          (stateAt toml start ops index).step toml (.answer .commands context listing) :=
        stateAt_succ _ _ _ hop
      rw [hstep]
      rcases answer_cases toml (stateAt toml start ops index) .commands context listing with
        ⟨hnone, _⟩ | ⟨asked, hstage, hanswer⟩
      · exact absurd (hnone.symm.trans hasking) nofun
      · have hasked : (stateAt toml start ops index).asking .commands = some (.entered command) :=
          hasking
        rw [asking, hstage] at hasked
        obtain rfl := Option.some.inj hasked
        rw [hanswer]
        rfl
    refine ⟨context, listing, hop, Prod.ext hafter.symm hpong, fun hunspaced ↦ ?_⟩
    have hdone : command.Done toml context before.control
        (before.handle toml context listing command.line.toList).1.control :=
      IpcCommand.done_of_handle_pong hoffered hunspaced hpong
    rw [← hafter] at hdone
    exact hdone
  | _ => cases hreplied

/-- What a key gives is offered. Assumes: a key gives the command. -/
theorem offered_of_enteredAt {index : ℕ} {command : IpcCommand}
    (hgiven : EnteredAt toml start ops index command) : command.Offered := by
  obtain ⟨op, _, hentered⟩ := hgiven
  cases op with
  | key code =>
    simp only [entered, enteredCommand] at hentered
    split at hentered
    · next found hfound =>
      obtain rfl := Option.some.inj hentered
      exact App.offered_of_handleKey hfound
    · cases hentered
  | _ => cases hentered

/-- Behind a success there is a command of the user that was answered with pong. Assumes: the success is
put into the queue, and nothing was under way at the start. -/
theorem readBackAt_of_actionOk {index : ℕ} {message : String}
    (hidle : ∀ loop, start.stage loop = .idle)
    (hreported : RecordedAt (step toml) reported start ops index (.actionOk message)) :
    ∃ command : IpcCommand, command.success = some (.actionOk message) ∧
      RecordedAt (step toml) (readBack .commands) start ops index (.entered command, some .pong) := by
  obtain ⟨op, hop, hreported⟩ := hreported
  obtain ⟨loop, errand, answer, arrival, rfl, hread, hfinish⟩ :=
    exists_readBack_of_reported hreported trivial
  obtain ⟨rfl, command, rfl, hsuccess⟩ := Errand.pong_of_actionOk hfinish
  obtain ⟨reply, _, hreply⟩ :=
    (answerChannel toml loop).sender_strictMono start ops (by simp [answerChannel, answering, hidle])
  obtain ⟨ask, _, hask⟩ :=
    (askChannel toml loop).sender_strictMono start ops (by simp [askChannel, asking, hidle])
  -- The loop is that of the commands, since it has begun a command.
  obtain ⟨_, hanswered⟩ := hreply index _ ⟨_, hop, hread⟩
  obtain ⟨_, _, _, hbegun⟩ := hask _ _ (settledAt_of_answeredAt hanswered)
  obtain ⟨rfl, _⟩ := taken_of_begun hbegun
  exact ⟨command, hsuccess, _, hop, hread⟩

variable (toml ops)

/-- Every success that is shown is that of a command that a key gave before and that the daemon has
carried out. No two successes are of one command, and they are shown in the order in which the commands
were given and carried out. -/
theorem terminal_success_is_real (daemon : ServingDaemon) (socket : String) :
    ∃ given carried : ℕ → ℕ,
      StrictMonoOn given {index | ∃ message,
        ShownAt toml (spawned daemon socket) ops index (.actionOk message)} ∧
      StrictMonoOn carried {index | ∃ message,
        ShownAt toml (spawned daemon socket) ops index (.actionOk message)} ∧
      ∀ index message, ShownAt toml (spawned daemon socket) ops index (.actionOk message) →
        given index < carried index ∧ carried index < index ∧ ∃ command : IpcCommand,
          command.success = some (.actionOk message) ∧
          EnteredAt toml (spawned daemon socket) ops (given index) command ∧
          CarriedOutAt toml (spawned daemon socket) ops (carried index) command := by
  set start := spawned daemon socket with hstart
  obtain ⟨report, hreportMono, hreport⟩ := (eventChannel toml).sender_strictMono start ops rfl
  obtain ⟨reply, hreplyMono, hreply⟩ :=
    (answerChannel toml .commands).sender_strictMono start ops rfl
  obtain ⟨ask, haskMono, hask⟩ := (askChannel toml .commands).sender_strictMono start ops rfl
  obtain ⟨give, hgiveMono, hgive⟩ := (commandChannel toml).sender_strictMono start ops rfl
  -- From the screen to the read, the answer, the start of the request and the key.
  have hchain : ∀ index message, ShownAt toml start ops index (.actionOk message) →
      report index < index ∧ ∃ command : IpcCommand, command.success = some (.actionOk message) ∧
        RecordedAt (step toml) (readBack .commands) start ops (report index)
          (.entered command, some .pong) ∧
        reply (report index) < report index ∧
        AnsweredAt toml start ops (reply (report index)) .commands (.entered command) .pong ∧
        ask (reply (report index)) < reply (report index) ∧
        RecordedAt (step toml) taken start ops (ask (reply (report index))) command ∧
        give (ask (reply (report index))) < ask (reply (report index)) ∧
        EnteredAt toml start ops (give (ask (reply (report index)))) command := by
    intro index message hshown
    obtain ⟨hshownLt, hreported⟩ := hreport index _ hshown
    obtain ⟨command, hsuccess, hread⟩ := readBackAt_of_actionOk (fun _ ↦ rfl) hreported
    obtain ⟨hreadLt, hanswered⟩ := hreply _ _ hread
    obtain ⟨haskLt, op, hop, hbegun⟩ := hask _ _ (settledAt_of_answeredAt hanswered)
    have htaken : RecordedAt (step toml) taken start ops (ask (reply (report index))) command :=
      ⟨op, hop, (taken_of_begun hbegun).2⟩
    obtain ⟨hgiveLt, hgiven⟩ := hgive _ _ htaken
    exact ⟨hshownLt, command, hsuccess, hread, hreadLt, hanswered, haskLt, htaken, hgiveLt, hgiven⟩
  have hcarried : StrictMonoOn (fun index ↦ reply (report index))
      {index | ∃ message, ShownAt toml start ops index (.actionOk message)} := by
    rintro first ⟨message, hfirst⟩ second ⟨other, hsecond⟩ hlt
    obtain ⟨_, command, _, hread, _⟩ := hchain first message hfirst
    obtain ⟨_, command', _, hread', _⟩ := hchain second other hsecond
    exact hreplyMono ⟨_, hread⟩ ⟨_, hread'⟩ (hreportMono ⟨_, hfirst⟩ ⟨_, hsecond⟩ hlt)
  refine ⟨fun index ↦ give (ask (reply (report index))), fun index ↦ reply (report index), ?_,
    hcarried, ?_⟩
  · rintro first ⟨message, hfirst⟩ second ⟨other, hsecond⟩ hlt
    obtain ⟨_, command, _, _, _, hanswered, _, htaken, _⟩ := hchain first message hfirst
    obtain ⟨_, command', _, _, _, hanswered', _, htaken', _⟩ := hchain second other hsecond
    have hasked := haskMono ⟨_, settledAt_of_answeredAt hanswered⟩
      ⟨_, settledAt_of_answeredAt hanswered'⟩ (hcarried ⟨_, hfirst⟩ ⟨_, hsecond⟩ hlt)
    exact hgiveMono ⟨_, htaken⟩ ⟨_, htaken'⟩ hasked
  · intro index message hshown
    obtain ⟨hshownLt, command, hsuccess, _, hreadLt, hanswered, haskLt, _, hgiveLt, hgiven⟩ :=
      hchain index message hshown
    refine ⟨hgiveLt.trans haskLt, hreadLt.trans hshownLt, command, hsuccess, hgiven, ?_⟩
    exact carriedOutAt_of_answeredAt hanswered (offered_of_enteredAt hgiven)

end Session

end Terminal

end InterFire
