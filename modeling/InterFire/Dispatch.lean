import InterFire.Address
import InterFire.Enforcement
import InterFire.Observe
import InterFire.PolicyRequests
import InterFire.PromptFrames
import InterFire.Rows

/-!
# Dispatching requests

`dispatch` of `crates/interfire-daemon/src/ipc.rs` with every handler behind it, over the whole
state that a request can reach. There is no check in `dispatch` itself: each handler that changes
something asks `peer_may_mutate` first, and `traffic_mutate` asks for root when the scope is the
machine.

What is read outside the state is given with the request: the size and time of the process, the
listing of the table, the audit records and the uptime. `audit-subscribe` is served before
`dispatch` is called.
-/

set_option autoImplicit false
set_option relaxedAutoImplicit false

namespace InterFire

/-- The size and the time of the daemon's own process. -/
structure SelfMetrics where
  pid : UInt32
  rssKib : UInt64
  cpuJiffies : UInt64
  deriving DecidableEq, Repr

/-- What a request meets: the uid that the socket reports for its peer, what the system says about
uids, the readings of the clock, how files and commands end, and what is read outside the state. -/
structure RequestContext where
  peerUid : Option UInt32
  daemonUid : UInt32
  inOperatorGroup : UInt32 → Bool
  expireNow : Instant
  stampNow : Instant
  save : SaveOutcome
  outcomes : RequestOutcomes
  metrics : SelfMetrics
  network : NetworkStatusBody
  auditTail : ℕ → String
  uptimeSecs : UInt64
  version : String
  git : String

/-- Everything that a request can read or change. -/
structure ControlState where
  shared : Shared
  directory : RulesDirectory
  enforcement : Enforcement
  observation : String

inductive EnforcementMutate
  | pause
  | resume
  deriving DecidableEq, Repr

inductive NetworkMutate
  | install
  | remove
  deriving DecidableEq, Repr

namespace RequestContext

/-- Root, the daemon's own user and the members of the operator group may mutate. -/
def uidMayMutate (context : RequestContext) (uid : UInt32) : Bool :=
  uid = 0 || uid = context.daemonUid || context.inOperatorGroup uid

/-- A peer without credentials may not mutate. -/
def peerMayMutate (context : RequestContext) : Bool := context.peerUid.any context.uidMayMutate

/-- The inputs of the handlers that change rules. -/
def policyInputs (context : RequestContext) : PolicyInputs :=
  ⟨context.peerMayMutate, context.expireNow, context.stampNow, context.save⟩

end RequestContext

/-! ### Rows -/

/-- The name of a verdict as it is printed for debugging. -/
def Verdict.debug : Verdict → String
  | .allow => "Allow"
  | .deny => "Deny"
  | .prompt => "Prompt"

def encodeRule (rule : Rule) : String :=
  decimal rule.id.toNat ++ "|" ++ rule.executable ++ "|" ++ rule.verdict.debug ++ "|" ++
    decimal (rule.port.getD 0).toNat

def encodeDns (row : String × UInt32 × ℕ) : String :=
  row.1 ++ "|" ++ (Octets.toNeBytes row.2.1).toText ++ "|" ++ decimal row.2.2

def encodeStats (row : String × StatsCounters) : String :=
  StatsRow.encodeRow
    { key := row.1, hits := row.2.hits, allow := row.2.allow, deny := row.2.deny,
      prompt := row.2.prompt }

def encodeDest (dest : RecentDest) : String :=
  dest.ipv4.toText ++ ":" ++ decimal dest.port.toNat ++ "/" ++ dest.verdict

/-- The row of a process. Its verdict is that of a connection nowhere. -/
def encodeProcess (recent : RecentConnects) (rules : RuleSet) (identity : ProcessIdentity) :
    String :=
  let ports := "+".intercalate
    ((recent.forProcess identity.pid identity.startTicks).map encodeDest)
  let connection : Connection :=
    { executable := identity.executable, protocol := .tcp, direction := .outbound,
      address := .v4 ⟨0, 0, 0, 0⟩, hostname := none, port := 0 }
  ProcessRow.encodeRow
    { pid := identity.pid
      startTicks := identity.startTicks
      uid := identity.uid
      executable := identity.executable
      cmdline := " ".intercalate identity.commandLine
      verdict := Text.toAsciiLowercase (rules.verdictFor connection).debug
      ports }

namespace ControlState

/-- The part of the state that rules and prompts are kept in. -/
def policyStore (state : ControlState) : PolicyStore :=
  ⟨state.shared.rules, state.shared.prompts, state.directory⟩

def withPolicyStore (state : ControlState) (store : PolicyStore) : ControlState :=
  { state with
    shared := { state.shared with rules := store.rules, prompts := store.prompts }
    directory := store.directory }

/-! ### Handlers that read -/

def bindLabel (state : ControlState) : String :=
  match state.enforcement.bindState with
  | .none => "none"
  | .nfqueue => "nfqueue"
  | .degraded => "degraded"

def enforcementLabel (state : ControlState) : String :=
  if state.enforcement.paused then "paused" else state.bindLabel

/-- The short token of the status response. -/
def traffic (state : ControlState) : String :=
  if state.enforcement.machineTraffic.isBlocked ||
      TrafficMode.anyBlockActive state.enforcement.files then "blocked"
  else "open"

/-- The status for a peer; one without credentials is shown what root is. -/
def status (context : RequestContext) (state : ControlState) : Response :=
  let uid := context.peerUid.getD 0
  .status
    { enforcement := state.enforcementLabel
      observation := state.observation
      traffic := state.traffic
      trafficMachine := state.enforcement.machineTraffic.asStr
      trafficUser := (state.enforcement.userPreference uid).asStr
      trafficEffective := state.enforcement.trafficEffective uid
      ipcVersion
      pid := context.metrics.pid
      rssKib := context.metrics.rssKib
      cpuJiffies := context.metrics.cpuJiffies }

def ruleList (state : ControlState) : Response :=
  match state.shared.rules.lock with
  | none => .error "lock_poisoned"
  | some rules => .rules (",".intercalate (rules.rules.map encodeRule))

def promptList (context : RequestContext) (state : ControlState) : ControlState × Response :=
  let (store, response) := state.policyStore.promptList context.expireNow context.stampNow
  (state.withPolicyStore store, response)

def dnsList (context : RequestContext) (state : ControlState) : ControlState × Response :=
  match state.shared.dns.lock with
  | none => (state, .error "lock_poisoned")
  | some dns =>
    let (dns, fresh) := dns.listFresh context.expireNow context.stampNow
    ({ state with shared := { state.shared with dns := state.shared.dns.store dns } },
      .dns (",".intercalate (fresh.map encodeDns)))

def auditTail (context : RequestContext) (state : ControlState) (limit : ℕ) : Response :=
  match state.shared.audit.lock with
  | none => .error "lock_poisoned"
  | some _ => .audit (context.auditTail limit)

def processList (state : ControlState) : Response :=
  match state.shared.processCache.lock, state.shared.recent.lock, state.shared.rules.lock with
  | some cache, some recent, some rules =>
    .processes (";".intercalate (cache.list.map (encodeProcess recent rules)))
  | _, _, _ => .error "lock_poisoned"

/-- The summary counts no rules when their lock is poisoned. -/
def statsSummary (context : RequestContext) (state : ControlState) : Response :=
  match state.shared.stats.lock with
  | none => .error "lock_poisoned"
  | some stats =>
    .statsSummary
      { connections := stats.connections
        denied := stats.denied
        uptimeSecs := context.uptimeSecs
        rules := UInt64.ofNat ((state.shared.rules.lock.map (·.rules.length)).getD 0)
        version := context.version
        git := context.git }

/-- One of the five lists of the statistics. -/
def statsList (state : ControlState) (rows : StatsStore → List (String × StatsCounters))
    (respond : String → Response) : Response :=
  match state.shared.stats.lock with
  | none => .error "lock_poisoned"
  | some stats => respond (";".intercalate ((rows stats).map encodeStats))

/-! ### Handlers that change -/

/-- A request that changes rules. -/
def changePolicy (toml : Toml) (context : RequestContext) (state : ControlState)
    (request : PolicyRequest) : ControlState × Response :=
  let (store, response) := state.policyStore.handle toml context.policyInputs request
  (state.withPolicyStore store, response)

def noteDns (context : RequestContext) (state : ControlState) (hostname ipv4 : String)
    (ttlSecs : Option UInt64) : ControlState × Option Response :=
  let (dns, reply) := dnsNote context.peerMayMutate context.expireNow context.stampNow hostname ipv4
    ttlSecs state.shared.dns
  ({ state with shared := { state.shared with dns } },
    match reply with
    | .pong => some .pong
    | .error code => some (.error code)
    | .panicked => none)

/-- Carry out a mode request, answering a failure with a code. -/
def changeMode (context : RequestContext) (state : ControlState) (request : ModeRequest)
    (failure : String) : ControlState × Response :=
  let (enforcement, result) := state.enforcement.handle context.outcomes request
  ({ state with enforcement },
    match result with
    | .ok () => .pong
    | .error _ => .error failure)

/-- Carry out a mode request for a peer that may mutate. -/
def mutateMode (context : RequestContext) (state : ControlState) (request : ModeRequest)
    (failure : String) : ControlState × Response :=
  if !context.peerMayMutate then (state, .error "unauthorized")
  else state.changeMode context request failure

def enforcementMutate (context : RequestContext) (state : ControlState) :
    EnforcementMutate → ControlState × Response
  | .pause => state.mutateMode context .pause "pause_failed"
  | .resume => state.mutateMode context .resume "resume_failed"

/-- Installing the table is resuming, and removing it is pausing. -/
def networkMutate (context : RequestContext) (state : ControlState) :
    NetworkMutate → ControlState × Response
  | .install => state.mutateMode context .resume "nft_install_failed"
  | .remove => state.mutateMode context .pause "nft_remove_failed"

/-- The scope that a peer may name: the machine is for root. -/
def trafficScope (uid : UInt32) : String → Except String TrafficScope
  | "machine" => if uid ≠ 0 then .error "unauthorized" else .ok .machine
  | "user" => .ok .user
  | _ => .error "malformed_request"

def trafficMutate (context : RequestContext) (state : ControlState) (scope : String)
    (direction : Option String) (unblock : Bool) : ControlState × Response :=
  if !context.peerMayMutate then (state, .error "unauthorized")
  else
    match context.peerUid with
    | none => (state, .error "unauthorized")
    | some uid =>
      match trafficScope uid scope with
      | .error code => (state, .error code)
      | .ok scope =>
        if unblock then
          state.changeMode context (.trafficUnblock scope uid) "traffic_unblock_failed"
        else
          match direction.bind TrafficPreference.parse with
          | none => (state, .error "malformed_request")
          | some preference =>
            if preference = .open then (state, .error "malformed_request")
            else
              state.changeMode context (.trafficBlock scope preference uid) "traffic_block_failed"

end ControlState

/-- A handler that always answers. -/
def answered (result : ControlState × Response) : ControlState × Option Response :=
  (result.1, some result.2)

open ControlState in
/-- Answer a request. A panic answers nothing. -/
def dispatch (toml : Toml) (context : RequestContext) (state : ControlState) :
    Request → ControlState × Option Response
  | .ping => (state, some .pong)
  | .status => (state, some (status context state))
  | .ruleList => (state, some (ruleList state))
  | .ruleDelete id => answered (changePolicy toml context state (.ruleDelete id))
  | .ruleAdd id executable verdict port =>
    answered (changePolicy toml context state (.ruleAdd id executable verdict port))
  | .promptList => answered (promptList context state)
  | .promptAnswer id verdict scope =>
    answered (changePolicy toml context state (.promptAnswer id verdict scope))
  | .dnsList => answered (dnsList context state)
  | .dnsNote hostname ipv4 ttlSecs => noteDns context state hostname ipv4 ttlSecs
  | .auditTail limit => (state, some (auditTail context state limit))
  | .auditSubscribe _ _ => (state, some (.error "malformed_request"))
  | .processList => (state, some (processList state))
  | .networkStatus => (state, some (.network context.network))
  | .networkInstall => answered (networkMutate context state .install)
  | .networkRemove => answered (networkMutate context state .remove)
  | .pause => answered (enforcementMutate context state .pause)
  | .resume => answered (enforcementMutate context state .resume)
  | .trafficBlock scope direction =>
    answered (trafficMutate context state scope (some direction) false)
  | .trafficUnblock scope => answered (trafficMutate context state scope none true)
  | .statsSummary => (state, some (statsSummary context state))
  | .statsHosts => (state, some (statsList state (·.hosts.snapshot) .statsHosts))
  | .statsProcs => (state, some (statsList state (·.procs.snapshot) .statsProcs))
  | .statsAddrs => (state, some (statsList state (·.addrs.snapshot) .statsAddrs))
  | .statsPorts =>
    (state, some (statsList state (fun stats ↦ stats.ports.snapshot.map fun row ↦
      (decimal row.1.toNat, row.2)) .statsPorts))
  | .statsUsers =>
    (state, some (statsList state (fun stats ↦ stats.users.snapshot.map fun row ↦
      (decimal row.1.toNat, row.2)) .statsUsers))

end InterFire
