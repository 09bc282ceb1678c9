import InterFire.Authority
import InterFire.ClientRequests

/-!
# Machine-wide traffic actions of the desktop

The desktop blocks and unblocks the machine through `pkexec interfirectl`
(`ui/src/service.rs`, `crates/interfirectl/src/main.rs`). `interfirectl` sends one line, prints the
line that it reads and exits with success, whatever the line says; only a failure of the exchange
itself makes it exit with an error. `finish_output` then looks at the exit status alone.

`runInterfirectl_ok_iff` says when the desktop takes an action as done, and
`reports_truthfully_iff` when that means that the daemon answered with a pong: exactly when the
exchange does not end with another answer.
-/

set_option autoImplicit false
set_option relaxedAutoImplicit false

namespace InterFire

open Request

/-! ### `interfirectl` -/

/-- What a program that was run leaves: whether it succeeded, and what it printed. -/
structure ProcessOutput where
  success : Bool
  stdout : String
  stderr : String
  deriving DecidableEq, Repr

/-- How the exchange with the daemon ends. An answer is the first line that is read, without its
newline when the daemon closes the connection in the middle of it, and empty when it closes it at
once. An error comes in its debug form, as it is printed. -/
inductive Exchange
  | connectFailed (error : String)
  | writeFailed (error : String)
  | readFailed (error : String)
  | answered (line : String)
  deriving DecidableEq, Repr

/-- The lines that explain the arguments. -/
def usageText : String :=
  "usage: interfirectl [--socket=PATH] <ping|status|pause|resume|traffic status|traffic block " ++
  "[--scope=user|machine] [--direction=out|in|all]|traffic unblock [--scope=user|machine]|rules " ++
  "…|prompts …|dns …|audit tail [N]|audit subscribe ID [since=N]|network status|network " ++
  "install|network remove>\n" ++
  "machine traffic requires root (pkexec interfirectl traffic block --scope=machine …)\n" ++
  "one-shot CLI only; use interfire-tui for interactive browse/answer\n"

/-- A program whose `main` returns an error, after it has printed something. -/
def ProcessOutput.failed (printed error : String) : ProcessOutput :=
  { success := false, stdout := "", stderr := printed ++ "Error: " ++ error ++ "\n" }

/-- The error of `usage`, in its debug form. -/
def invalidCommand : String := "Custom \x7b kind: InvalidInput, error: \"invalid command\" \x7d"

/-- The program `interfirectl`. The argument that names the socket may stand anywhere. -/
def interfirectl (arguments : List String) (exchange : Exchange) : ProcessOutput :=
  match parseCommand (arguments.filter fun argument ↦ (stripPrefix "--socket=" argument).isNone) with
  | none => .failed usageText invalidCommand
  | some _ =>
    match exchange with
    | .connectFailed error => .failed "" error
    | .writeFailed error => .failed "" error
    | .readFailed error => .failed "" error
    | .answered line => { success := true, stdout := line, stderr := "" }

/-! ### The desktop -/

/-- What `pkexec` does: it cannot be started, refuses to run the program, or runs it and passes on
its status and output. -/
inductive Pkexec
  | spawnFailed (error : String)
  | refused (stderr : String)
  | passes
  deriving DecidableEq, Repr

def finishOutput (output : ProcessOutput) (label : String) : Except String Unit :=
  if output.success then .ok ()
  else
    let detail := trimmed output.stderr
    if detail ≠ "" then .error detail
    else
      let out := trimmed output.stdout
      if out ≠ "" then .error out else .error (label ++ " failed")

def runInterfirectl (pkexec : Pkexec) (exchange : Exchange) (socket : String)
    (arguments : List String) : Except String Unit :=
  match pkexec with
  | .spawnFailed error => .error ("pkexec failed: " ++ error)
  | .refused stderr => finishOutput ⟨false, "", stderr⟩ "interfirectl traffic"
  | .passes =>
    finishOutput (interfirectl (("--socket=" ++ socket) :: arguments) exchange)
      "interfirectl traffic"

/-- An action on the whole machine. -/
inductive MachineAction
  | block (direction : String)
  | unblock
  deriving DecidableEq, Repr

/-- The arguments of `interfirectl` for an action. -/
def MachineAction.arguments : MachineAction → List String
  | .block direction => ["traffic", "block", "--scope=machine", "--direction=" ++ direction]
  | .unblock => ["traffic", "unblock", "--scope=machine"]

def trafficBlockMachine (pkexec : Pkexec) (exchange : Exchange) (socket direction : String) :
    Except String Unit :=
  runInterfirectl pkexec exchange socket (MachineAction.block direction).arguments

def trafficUnblockMachine (pkexec : Pkexec) (exchange : Exchange) (socket : String) :
    Except String Unit :=
  runInterfirectl pkexec exchange socket MachineAction.unblock.arguments

/-- The function of the desktop for an action. -/
def MachineAction.run (pkexec : Pkexec) (exchange : Exchange) (socket : String) :
    MachineAction → Except String Unit
  | .block direction => trafficBlockMachine pkexec exchange socket direction
  | .unblock => trafficUnblockMachine pkexec exchange socket

/-- The directions that `interfirectl` accepts. -/
def MachineAction.Accepted : MachineAction → Prop
  | .block direction => direction ∈ ["out", "in", "all"]
  | .unblock => True

/-! ### When an action is taken as done -/

/-- A text with another start is not stripped. Assumes: it begins otherwise. -/
theorem stripPrefix_eq_none {start text : String} (hstart : ¬ start.toList <+: text.toList) :
    stripPrefix start text = none := by
  rw [stripPrefix, Option.map_eq_none_iff]
  cases hdrop : text.toList.dropPrefix? start.toList with
  | none => rfl
  | some rest =>
    obtain ⟨front, htext, hfront⟩ := List.dropPrefix?_eq_some_iff.mp hdrop
    rw [beq_iff_eq] at hfront
    exact absurd ⟨rest, by rw [htext, hfront]⟩ hstart

/-- The direction is not mistaken for another option. -/
theorem stripPrefix_direction (direction : String) :
    stripPrefix "--socket=" ("--direction=" ++ direction) = none ∧
      stripPrefix "--scope=" ("--direction=" ++ direction) = none := by
  have hfront : ("--direction=" ++ direction).toList =
      '-' :: '-' :: 'd' :: ("irection=".toList ++ direction.toList) := by
    rw [String.toList_append]
    rfl
  constructor <;>
  · refine stripPrefix_eq_none ?_
    rw [hfront]
    simp

/-- The command that an action makes of its arguments. -/
theorem parseCommand_arguments (action : MachineAction) (socket : String) :
    (parseCommand ((("--socket=" ++ socket) :: action.arguments).filter
      fun argument ↦ (stripPrefix "--socket=" argument).isNone)).isSome ↔ action.Accepted := by
  have hsocket : (stripPrefix "--socket=" ("--socket=" ++ socket)).isNone = false := by
    rw [stripPrefix_append]
    rfl
  cases action with
  | unblock =>
    rw [List.filter_cons_of_neg (by simp [hsocket])]
    exact iff_of_true (by decide) trivial
  | block direction =>
    obtain ⟨hnotSocket, hnotScope⟩ := stripPrefix_direction direction
    have hfilter : (("--socket=" ++ socket) :: (MachineAction.block direction).arguments).filter
        (fun argument ↦ (stripPrefix "--socket=" argument).isNone) =
        ["traffic", "block", "--scope=machine", "--direction=" ++ direction] := by
      rw [List.filter_cons_of_neg (by simp [hsocket])]
      refine List.filter_eq_self.mpr fun argument hargument ↦ ?_
      simp only [MachineAction.arguments, List.mem_cons, List.not_mem_nil, or_false] at hargument
      rcases hargument with rfl | rfl | rfl | rfl
      · decide
      · decide
      · decide
      · rw [hnotSocket]
        rfl
    have hscope : stripPrefix "--scope=" "--scope=machine" = some "machine" := by decide
    have hoptions : trafficOptions ["--scope=machine", "--direction=" ++ direction] =
        some ("machine", direction) := by
      simp [trafficOptions, hscope, hnotScope, stripPrefix_append]
    rw [hfilter]
    change (parseTrafficCommand "block" ["--scope=machine", "--direction=" ++ direction]).isSome ↔
      direction ∈ ["out", "in", "all"]
    rw [parseTrafficCommand, hoptions]
    simp only [List.mem_cons, not_true_eq_false, List.not_mem_nil, or_true, if_false, or_false]
    split_ifs with hdirection
    · exact iff_of_true rfl (by simpa using hdirection)
    · exact iff_of_false (by simp) (by simpa using hdirection)

theorem finishOutput_ok_iff (output : ProcessOutput) (label : String) :
    finishOutput output label = .ok () ↔ output.success = true := by
  unfold finishOutput
  dsimp only
  split_ifs with hsuccess hdetail hout
  · exact iff_of_true rfl hsuccess
  · exact iff_of_false (by simp) hsuccess
  · exact iff_of_false (by simp) hsuccess
  · exact iff_of_false (by simp) hsuccess

/-- `interfirectl` succeeds exactly when it accepts its arguments and reads an answer, whatever the
answer is. -/
theorem success_interfirectl_iff (arguments : List String) (exchange : Exchange) :
    (interfirectl arguments exchange).success = true ↔
      (parseCommand (arguments.filter
        fun argument ↦ (stripPrefix "--socket=" argument).isNone)).isSome ∧
      ∃ line, exchange = .answered line := by
  unfold interfirectl
  split
  · next hnone => simp [hnone, ProcessOutput.failed]
  · next command hcommand =>
    rw [hcommand]
    cases exchange <;> simp [ProcessOutput.failed]

/-- An action is taken as done exactly when `pkexec` runs `interfirectl`, the direction is one that
it accepts, and it reads an answer. -/
theorem run_ok_iff (pkexec : Pkexec) (exchange : Exchange) (socket : String)
    (action : MachineAction) :
    action.run pkexec exchange socket = .ok () ↔
      pkexec = .passes ∧ action.Accepted ∧ ∃ line, exchange = .answered line := by
  have hrun : action.run pkexec exchange socket =
      runInterfirectl pkexec exchange socket action.arguments := by
    cases action <;> rfl
  rw [hrun]
  cases pkexec with
  | spawnFailed error => simp [runInterfirectl]
  | refused stderr => simp [runInterfirectl, finishOutput_ok_iff]
  | passes =>
    rw [runInterfirectl, finishOutput_ok_iff, success_interfirectl_iff, parseCommand_arguments]
    simp

/-- The desktop takes an action as done only after a pong exactly when `pkexec` does not run
`interfirectl`, or the direction is not accepted, or no answer but a pong is read. -/
theorem reports_truthfully_iff (pkexec : Pkexec) (exchange : Exchange) (socket : String)
    (action : MachineAction) :
    (action.run pkexec exchange socket = .ok () → exchange = .answered Response.pong.encode) ↔
      pkexec ≠ .passes ∨ ¬ action.Accepted ∨
        ∀ line, exchange = .answered line → line = Response.pong.encode := by
  rw [run_ok_iff]
  constructor
  · intro htruthful
    by_cases hpasses : pkexec = .passes
    · by_cases haccepted : action.Accepted
      · refine .inr (.inr fun line hline ↦ ?_)
        have hpong := htruthful ⟨hpasses, haccepted, line, hline⟩
        exact Exchange.answered.inj (hline.symm.trans hpong)
      · exact .inr (.inl haccepted)
    · exact .inl hpasses
  · rintro (hpasses | haccepted | hanswer) ⟨hruns, haccepts, line, hline⟩
    · exact absurd hruns hpasses
    · exact absurd haccepts haccepted
    · rw [hline, hanswer line hline]

/-- Root asks a daemon whose `nft` cannot be started. -/
def RequestContext.withoutNft : RequestContext :=
  { RequestContext.ordinary with
    peerUid := some 0
    outcomes := ⟨.done, 0, ⟨.done, .spawnFailed "No such file or directory"⟩⟩ }

/-- The daemon fails to block the machine and says so, its table is missing, and the desktop takes
the machine as blocked. -/
theorem failed_block_reported_done :
    (dispatch curlToml .withoutNft (.startedWith .withDefaults) (.trafficBlock "machine" "out")).2 =
        some (.error "traffic_block_failed") ∧
      (dispatch curlToml .withoutNft (.startedWith .withDefaults)
        (.trafficBlock "machine" "out")).1.enforcement.table = none ∧
      trafficBlockMachine .passes (.answered (Response.error "traffic_block_failed").encode)
        "/run/interfire/control.sock" "out" = .ok () :=
  ⟨by decide, by decide,
    (run_ok_iff .passes _ _ (.block "out")).mpr ⟨rfl, List.mem_cons_self, _, rfl⟩⟩

end InterFire
