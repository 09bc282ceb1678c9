import InterFire.Library.Text
import InterFire.Rules

/-!
# Requests, responses and the prompt rows of the wire

The part of `crates/interfire-proto` that the request handlers and the clients use: the requests
that a control frame can carry, the responses with their frames, and the reader of the prompt list.

A response is one line of text. The list responses join their rows with commas and the fields of a
row with bars, without any escape.
-/

set_option autoImplicit false
set_option relaxedAutoImplicit false

namespace InterFire

/-- A parsed control frame. -/
inductive Request
  | ping
  | status
  | ruleList
  | ruleAdd (id : UInt64) (executable verdict : String) (port : UInt16)
  | ruleDelete (id : UInt64)
  | promptList
  | promptAnswer (id : UInt64) (verdict scope : String)
  | dnsList
  | dnsNote (hostname ipv4 : String) (ttlSecs : Option UInt64)
  | auditTail (limit : ℕ)
  | auditSubscribe (id : String) (since : UInt64)
  | processList
  | networkStatus
  | networkInstall
  | networkRemove
  | pause
  | resume
  | trafficBlock (scope direction : String)
  | trafficUnblock (scope : String)
  | statsSummary
  | statsHosts
  | statsProcs
  | statsAddrs
  | statsPorts
  | statsUsers
  deriving DecidableEq, Repr

inductive NetworkTableState
  | missing
  | installed
  | incomplete
  deriving DecidableEq, Repr

def NetworkTableState.asStr : NetworkTableState → String
  | .missing => "missing"
  | .installed => "installed"
  | .incomplete => "incomplete"

structure NetworkStatusBody where
  table : String
  queue : UInt16
  state : NetworkTableState
  rule : String
  deriving DecidableEq, Repr

structure StatusBody where
  enforcement : String
  observation : String
  traffic : String
  trafficMachine : String
  trafficUser : String
  trafficEffective : String
  ipcVersion : UInt16
  pid : UInt32
  rssKib : UInt64
  cpuJiffies : UInt64
  deriving DecidableEq, Repr

structure StatsSummaryBody where
  connections : UInt64
  denied : UInt64
  uptimeSecs : UInt64
  rules : UInt64
  version : String
  git : String
  deriving DecidableEq, Repr

inductive Response
  | pong
  | status (body : StatusBody)
  | error (message : String)
  | rules (value : String)
  | prompts (value : String)
  | dns (value : String)
  | audit (value : String)
  | subscribed (id : String)
  | processes (value : String)
  | network (body : NetworkStatusBody)
  | statsSummary (body : StatsSummaryBody)
  | statsHosts (value : String)
  | statsProcs (value : String)
  | statsAddrs (value : String)
  | statsPorts (value : String)
  | statsUsers (value : String)
  deriving DecidableEq, Repr

def ipcVersion : UInt16 := 1

/-- The decimal numeral of a number. -/
def decimal (value : ℕ) : String := toString value

/-- The frame of a response. -/
def Response.encode : Response → String
  | pong => "v1 pong\n"
  | status body =>
    "v1 status enforcement=" ++ body.enforcement ++ " observation=" ++ body.observation ++
      " traffic=" ++ body.traffic ++ " traffic_machine=" ++ body.trafficMachine ++
      " traffic_user=" ++ body.trafficUser ++ " traffic_effective=" ++ body.trafficEffective ++
      " ipc_version=" ++ decimal body.ipcVersion.toNat ++ " pid=" ++ decimal body.pid.toNat ++
      " rss_kib=" ++ decimal body.rssKib.toNat ++
      " cpu_jiffies=" ++ decimal body.cpuJiffies.toNat ++ "\n"
  | error message => "v1 error " ++ message ++ "\n"
  | rules value => "v1 rules " ++ value ++ "\n"
  | prompts value => "v1 prompts " ++ value ++ "\n"
  | dns value => "v1 dns " ++ value ++ "\n"
  | audit value => "v1 audit-tail " ++ value ++ "\n"
  | subscribed id => "v1 subscribed " ++ id ++ "\n"
  | processes value => "v1 processes " ++ value ++ "\n"
  | network body =>
    "v1 network table=" ++ body.table ++ " queue=" ++ decimal body.queue.toNat ++
      " state=" ++ body.state.asStr ++ " rule=" ++ body.rule ++ "\n"
  | statsSummary body =>
    "v1 stats-summary connections=" ++ decimal body.connections.toNat ++
      " denied=" ++ decimal body.denied.toNat ++
      " uptime_secs=" ++ decimal body.uptimeSecs.toNat ++ " rules=" ++ decimal body.rules.toNat ++
      " version=" ++ body.version ++ " git=" ++ body.git ++ "\n"
  | statsHosts value => "v1 stats-hosts " ++ value ++ "\n"
  | statsProcs value => "v1 stats-procs " ++ value ++ "\n"
  | statsAddrs value => "v1 stats-addrs " ++ value ++ "\n"
  | statsPorts value => "v1 stats-ports " ++ value ++ "\n"
  | statsUsers value => "v1 stats-users " ++ value ++ "\n"

/-! ### The prompt list -/

inductive ProtocolError
  | unsupportedVersion
  | malformed
  deriving DecidableEq, Repr

/-- One row of the prompt list as a client reads it. -/
structure PromptRow where
  id : UInt64
  executable : String
  destination : String
  port : UInt16
  protocol : String
  remainingSecs : UInt64
  deriving DecidableEq, Repr

namespace PromptRow

/-- Read one row. The protocol and the remaining seconds may be missing. -/
def parseRow (row : List Char) : Except ProtocolError PromptRow :=
  match row.splitOn '|' with
  | id :: executable :: destination :: port :: rest =>
    match Text.parseUnsigned (2 ^ 64) id, Text.parseUnsigned (2 ^ 16) port with
    | some id, some port =>
      .ok
        { id := UInt64.ofNat id
          executable := String.ofList executable
          destination := String.ofList destination
          port := UInt16.ofNat port
          protocol := (rest[0]?.map String.ofList).getD "tcp"
          remainingSecs :=
            UInt64.ofNat ((rest[1]?.bind (Text.parseUnsigned (2 ^ 64))).getD 0) }
    | _, _ => .error .malformed
  | _ => .error .malformed

/-- A line without the carriage returns and newlines at its end. -/
def trimEnd (frame : List Char) : List Char :=
  (frame.reverse.dropWhile fun character ↦ character = '\r' || character = '\n').reverse

/-- Read the rows of a payload. -/
def parsePayload (payload : List Char) : Except ProtocolError (List PromptRow) :=
  if payload = [] then .ok [] else (payload.splitOn ',').mapM parseRow

/-- Read the frame of a prompt list. -/
def parseFrame (frame : List Char) : Except ProtocolError (List PromptRow) :=
  let (version, rest) := Text.splitOnce ' ' (trimEnd frame)
  if version ≠ ['v', '1'] then
    .error (if version.head? = some 'v' then .unsupportedVersion else .malformed)
  else
    match rest.map (Text.splitOnce ' ') with
    | none => .error .malformed
    | some (command, payload) =>
      if command ≠ ['p', 'r', 'o', 'm', 'p', 't', 's'] then .error .malformed
      else parsePayload (payload.getD [])

/-- A client lets the operator answer the prompt. -/
def canAnswer (row : PromptRow) : Bool := 0 < row.remainingSecs

end PromptRow

end InterFire
