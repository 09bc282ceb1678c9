import InterFire.AuditStreams
import InterFire.Authority
import InterFire.Requests

/-!
# A daemon that serves requests while it observes connections

The parts of the daemon that a response is made of, put together: the state that requests and
observed connections share, the audit log, and the decisions that have been made. An event passes
through the sections of `handle_event` (`crates/interfire-daemon/src/observe.rs`), and between any
two of them there may be sections of other events and requests. `handle`
(`crates/interfire-daemon/src/ipc.rs`) reads a line, turns away one that is too long or malformed,
and answers the others by `dispatch`, but for `audit-subscribe`.

What a request is told from outside of the state comes from where the source takes it: the tail from
the audit log, the table from the listing of `nft`, the version and the build stamp from the build.
-/

set_option autoImplicit false
set_option relaxedAutoImplicit false

namespace InterFire

/-! ### What responses take from outside of the state -/

/-- The frame of a streamed record. -/
def encodeAuditFrame (record : BoundedLogRecord) : String :=
  "v1 audit " ++ decimal record.sequence.toNat ++ "|" ++ record.message ++ "\n"

/-- The payload of the audit tail. -/
def AuditLog.encodeTail (log : AuditLog) (limit : ℕ) : String :=
  ",".intercalate ((log.tail limit).map fun record ↦
    decimal record.sequence.toNat ++ "|" ++ record.message)

namespace NetworkStatusBody

/-- The status of the owned table. -/
def body (state : NetworkTableState) (rule : String) : NetworkStatusBody :=
  { table := "interfire", queue := 4242, state, rule }

/-- The status that a listing of the table shows. -/
def classifyListOutput (stdout : String) : NetworkStatusBody :=
  let flattened := Text.join ' ' ((Text.words stdout.toList).map String.toList)
  let contains := fun part : String ↦ Decidable.decide (part.toList <:+: flattened)
  if !contains "table inet interfire" then body .missing "none"
  else
    let hasQueue := contains "queue num 4242"
    let hasTcpNew := contains "meta l4proto tcp" &&
      (contains "ct state new" || contains "ct state")
    let hasDrop := contains " drop" || "drop".toList <:+ flattened
    let hasLo := contains "oifname \"lo\"" || contains "oifname lo"
    if hasQueue && hasTcpNew then body .installed "tcp_new_queue_4242"
    else if hasDrop && hasTcpNew && hasLo then body .installed "tcp_new_drop"
    else body .incomplete "none"

/-- The status of the owned table. No listing is a table that is missing or a failure of `nft`. -/
def ofListing : Option String → NetworkStatusBody
  | some stdout => classifyListOutput stdout
  | none => body .missing "none"

/-- The rule of a network status is one of three texts. -/
theorem exists_ofListing (listing : Option String) :
    ∃ state, ∃ rule ∈ ["none", "tcp_new_queue_4242", "tcp_new_drop"],
      ofListing listing = body state rule := by
  cases listing with
  | none => exact ⟨.missing, "none", by decide, rfl⟩
  | some stdout =>
    change ∃ state, ∃ rule ∈ _, classifyListOutput stdout = body state rule
    generalize hbody : classifyListOutput stdout = network
    unfold classifyListOutput at hbody
    extract_lets flattened contains hasQueue hasTcpNew hasDrop hasLo at hbody
    split at hbody
    · exact ⟨.missing, "none", by decide, hbody.symm⟩
    split at hbody
    · exact ⟨.installed, "tcp_new_queue_4242", by decide, hbody.symm⟩
    split at hbody
    · exact ⟨.installed, "tcp_new_drop", by decide, hbody.symm⟩
    · exact ⟨.incomplete, "none", by decide, hbody.symm⟩

end NetworkStatusBody

/-- The version of the crate. -/
def packageVersion : String := "0.1.0"

def observationLabel (attached : Bool) : String := if attached then "attached" else "degraded"

/-! ### The daemon -/

/-- The shared state, the audit log, the decisions made so far and the stamp of the build. -/
structure ServingDaemon where
  control : ControlState
  log : AuditLog
  decisions : List Decision
  git : String

/-- A section of an event, a request, or a change by the other threads to what they own. A section
after the decision names the decision. -/
inductive ServingOp
  | decide (clock : DecideClock) (reads : ProcReads) (event : TcpConnectEvent)
  | keep (index : ℕ) (expireNow stampNow : Instant)
  | count (index : ℕ)
  | record (index : ℕ) (file : Option (List Char))
  | serve (context : RequestContext) (listing : Option String) (frame : List Char)
  | others (pending : Mutex PendingTable) (enforcement : Enforcement) (attached : Bool)

namespace ServingDaemon

def withShared (daemon : ServingDaemon) (shared : Shared) : ServingDaemon :=
  { daemon with control := { daemon.control with shared } }

/-- Decide an event and remember the decision. -/
def decide (daemon : ServingDaemon) (clock : DecideClock) (reads : ProcReads)
    (event : TcpConnectEvent) : ServingDaemon :=
  match Observe.decideSection clock reads event daemon.control.shared with
  | none => daemon
  | some (shared, decision) =>
    { daemon.withShared shared with decisions := daemon.decisions ++ [decision] }

/-- Do something with a decision. -/
def withDecision (daemon : ServingDaemon) (index : ℕ) (act : Decision → ServingDaemon) :
    ServingDaemon :=
  match daemon.decisions[index]? with
  | none => daemon
  | some decision => act decision

def count (daemon : ServingDaemon) (decision : Decision) : ServingDaemon :=
  daemon.withShared (Observe.statsSection decision daemon.control.shared)

/-- Append the audit record of a decision, unless the lock is poisoned. -/
def record (daemon : ServingDaemon) (file : Option (List Char)) (decision : Decision) :
    ServingDaemon :=
  match daemon.control.shared.audit.lock with
  | none => daemon
  | some _ =>
    { daemon.withShared (Observe.auditSection decision daemon.control.shared) with
      log := (daemon.log.append file (Observe.auditMessage decision)).1 }

/-- A request as it meets this daemon. -/
def context (daemon : ServingDaemon) (context : RequestContext) (listing : Option String) :
    RequestContext :=
  { context with
    network := .ofListing listing
    auditTail := daemon.log.encodeTail
    version := packageVersion
    git := daemon.git }

/-- The answer to a subscription. -/
def auditSubscribe (daemon : ServingDaemon) (id : String) : Response :=
  if ¬ AuditStreams.ValidSubscriber id then .error "invalid_subscriber"
  else
    match daemon.control.shared.audit.lock with
    | none => .error "lock_poisoned"
    | some _ => .subscribed id

/-- Answer a line. A panic answers nothing. -/
def handle (toml : Toml) (daemon : ServingDaemon) (context : RequestContext)
    (listing : Option String) (frame : List Char) : ServingDaemon × Option Response :=
  if maxFrameBytes < Text.byteLength frame then (daemon, some (.error "frame_too_large"))
  else
    match Request.parse frame with
    | .error _ => (daemon, some (.error "malformed_request"))
    | .ok (.auditSubscribe id _) => (daemon, some (daemon.auditSubscribe id))
    | .ok request =>
      let (control, response) :=
        dispatch toml (daemon.context context listing) daemon.control request
      ({ daemon with control }, response)

def step (toml : Toml) (daemon : ServingDaemon) : ServingOp → ServingDaemon
  | .decide clock reads event => daemon.decide clock reads event
  | .keep index expireNow stampNow =>
    daemon.withDecision index fun decision ↦ daemon.withShared
      (Observe.pendingSection expireNow stampNow decision daemon.control.shared)
  | .count index => daemon.withDecision index daemon.count
  | .record index file => daemon.withDecision index (daemon.record file)
  | .serve context listing frame => (daemon.handle toml context listing frame).1
  | .others pending enforcement attached =>
    { daemon with
      control :=
        { daemon.control with
          shared := { daemon.control.shared with pending }
          enforcement
          observation := observationLabel attached } }

/-- The daemon after a list of steps. -/
def after (toml : Toml) (daemon : ServingDaemon) (ops : List ServingOp) : ServingDaemon :=
  ops.foldl (step toml) daemon

/-- A daemon that has loaded its rules and opened its log, and has seen nothing yet. -/
def start (store : PolicyStore) (log : AuditLog) (attached : Bool) (git : String) :
    ServingDaemon where
  control :=
    { (ControlState.startedWith .withDefaults).withPolicyStore store with
      observation := observationLabel attached }
  log := log
  decisions := []
  git := git

end ServingDaemon

/-! ### What a request is answered with -/

/-- The codes of errors. -/
def errorCodes : List String :=
  ["frame_too_large", "malformed_request", "invalid_subscriber", "lock_poisoned", "unauthorized",
    "rule_not_found", "invalid_verdict", "invalid_rule", "persistence_failed", "invalid_scope",
    "prompt_not_found", "prompt_expired", "invalid_hostname", "invalid_ipv4", "pause_failed",
    "resume_failed", "nft_install_failed", "nft_remove_failed", "traffic_block_failed",
    "traffic_unblock_failed"]

/-- A response without content. -/
def Response.IsReply (response : Response) : Prop :=
  response = .pong ∨ ∃ code ∈ errorCodes, response = .error code

theorem Response.isReply_pong : Response.pong.IsReply := .inl rfl

/-- An error with a listed code is a reply. Assumes: the code is listed. -/
theorem Response.isReply_error {code : String} (hcode : code ∈ errorCodes) :
    (Response.error code).IsReply :=
  .inr ⟨code, hcode, rfl⟩

/-- The response with the content that a request asks for. -/
def ControlState.Shows (context : RequestContext) (state : ControlState) (response : Response) :
    Request → Prop
  | .status => response = state.status context
  | .ruleList => ∃ rules, state.shared.rules.lock = some rules ∧
      response = .rules (",".intercalate (rules.rules.map encodeRule))
  | .promptList => ∃ prompts, state.shared.prompts.lock = some prompts ∧
      response = .prompts (encodePrompts context.stampNow (prompts.listPending context.expireNow).2)
  | .dnsList => ∃ dns, state.shared.dns.lock = some dns ∧
      response = .dns (",".intercalate
        ((dns.listFresh context.expireNow context.stampNow).2.map encodeDns))
  | .auditTail limit => response = .audit (context.auditTail limit)
  | .processList => ∃ cache recent rules, state.shared.processCache.lock = some cache ∧
      state.shared.recent.lock = some recent ∧ state.shared.rules.lock = some rules ∧
      response = .processes (";".intercalate (cache.list.map (encodeProcess recent rules)))
  | .networkStatus => response = .network context.network
  | .statsSummary => ∃ stats, state.shared.stats.lock = some stats ∧
      response = .statsSummary
        { connections := stats.connections
          denied := stats.denied
          uptimeSecs := context.uptimeSecs
          rules := UInt64.ofNat ((state.shared.rules.lock.map (·.rules.length)).getD 0)
          version := context.version
          git := context.git }
  | .statsHosts => ∃ stats, state.shared.stats.lock = some stats ∧
      response = .statsHosts (";".intercalate (stats.hosts.snapshot.map encodeStats))
  | .statsProcs => ∃ stats, state.shared.stats.lock = some stats ∧
      response = .statsProcs (";".intercalate (stats.procs.snapshot.map encodeStats))
  | .statsAddrs => ∃ stats, state.shared.stats.lock = some stats ∧
      response = .statsAddrs (";".intercalate (stats.addrs.snapshot.map encodeStats))
  | .statsPorts => ∃ stats, state.shared.stats.lock = some stats ∧
      response = .statsPorts (";".intercalate ((stats.ports.snapshot.map fun row ↦
        (decimal row.1.toNat, row.2)).map encodeStats))
  | .statsUsers => ∃ stats, state.shared.stats.lock = some stats ∧
      response = .statsUsers (";".intercalate ((stats.users.snapshot.map fun row ↦
        (decimal row.1.toNat, row.2)).map encodeStats))
  | _ => False

namespace PolicyStore

/-- A refused change has a listed code. Assumes: it is refused. -/
theorem mem_errorCodes_of_apply {rules : RuleSet} {change : RulesChange} {code : String}
    (happly : change.apply rules = .error code) : code ∈ errorCodes := by
  unfold RulesChange.apply at happly
  repeat' split at happly
  all_goals
    cases happly
    try decide

theorem isReply_changeRules (toml : Toml) (outcome : SaveOutcome) (change : RulesChange)
    (store : PolicyStore) : (respond (store.changeRules toml outcome change).2).IsReply := by
  unfold changeRules
  split
  · exact Response.isReply_error (by decide)
  · split
    · next hrefused => exact Response.isReply_error (mem_errorCodes_of_apply hrefused)
    · exact Response.isReply_pong
    · next rules _ =>
      cases hsave : (RulesStore.save toml outcome rules store.directory).2 with
      | ok done => simp [respond, hsave, Except.mapError, Response.isReply_pong]
      | error failure =>
        simp only [respond, hsave, Except.mapError]
        exact Response.isReply_error (by decide)

theorem isReply_mutate (toml : Toml) (inputs : PolicyInputs) (change : RulesChange)
    (store : PolicyStore) : (store.mutate toml inputs change).2.IsReply := by
  unfold mutate
  split_ifs
  · exact Response.isReply_error (by decide)
  · exact isReply_changeRules toml inputs.save change store

theorem isReply_promptAnswer (toml : Toml) (inputs : PolicyInputs) (id : UInt64)
    (verdict scope : String) (store : PolicyStore) :
    (store.promptAnswer toml inputs id verdict scope).2.IsReply := by
  unfold promptAnswer
  split_ifs
  · exact Response.isReply_error (by decide)
  split
  · exact Response.isReply_error (by decide)
  split
  · exact Response.isReply_error (by decide)
  split
  · exact Response.isReply_error (by decide)
  dsimp only
  split
  · exact Response.isReply_error (by decide)
  · exact Response.isReply_error (by decide)
  · split_ifs
    · exact isReply_changeRules toml inputs.save _ _
    · exact Response.isReply_pong

theorem isReply_handle (toml : Toml) (inputs : PolicyInputs) (store : PolicyStore)
    (request : PolicyRequest) : (store.handle toml inputs request).2.IsReply := by
  cases request with
  | ruleAdd id executable verdict port => exact isReply_mutate toml inputs _ store
  | ruleDelete id => exact isReply_mutate toml inputs _ store
  | promptAnswer id verdict scope => exact isReply_promptAnswer toml inputs id verdict scope store

end PolicyStore

namespace ControlState

variable {context : RequestContext} {state : ControlState}

theorem isReply_changePolicy (toml : Toml) (context : RequestContext) (state : ControlState)
    (request : PolicyRequest) : (state.changePolicy toml context request).2.IsReply :=
  PolicyStore.isReply_handle toml context.policyInputs state.policyStore request

theorem isReply_changeMode (context : RequestContext) (state : ControlState)
    (request : ModeRequest) {failure : String} (hfailure : failure ∈ errorCodes) :
    (state.changeMode context request failure).2.IsReply := by
  unfold changeMode
  dsimp only
  split
  · exact Response.isReply_pong
  · exact Response.isReply_error hfailure

theorem isReply_mutateMode (context : RequestContext) (state : ControlState)
    (request : ModeRequest) {failure : String} (hfailure : failure ∈ errorCodes) :
    (state.mutateMode context request failure).2.IsReply := by
  unfold mutateMode
  split_ifs
  · exact Response.isReply_error (by decide)
  · exact isReply_changeMode context state request hfailure

theorem mem_errorCodes_of_trafficScope {uid : UInt32} {scope code : String}
    (hscope : trafficScope uid scope = .error code) : code ∈ errorCodes := by
  unfold trafficScope at hscope
  repeat' split at hscope
  all_goals
    cases hscope
    try decide

theorem isReply_trafficMutate (context : RequestContext) (state : ControlState) (scope : String)
    (direction : Option String) (unblock : Bool) :
    (state.trafficMutate context scope direction unblock).2.IsReply := by
  unfold trafficMutate
  split
  · exact Response.isReply_error (by decide)
  split
  · exact Response.isReply_error (by decide)
  split
  · next hrefused => exact Response.isReply_error (mem_errorCodes_of_trafficScope hrefused)
  split
  · exact isReply_changeMode context state _ (by decide)
  split
  · exact Response.isReply_error (by decide)
  split
  · exact Response.isReply_error (by decide)
  · exact isReply_changeMode context state _ (by decide)

theorem mem_errorCodes_of_dnsNote {mayMutate : Bool} {expireNow stampNow : Instant}
    {hostname ipv4 code : String} {ttlSecs : Option UInt64} {dns : Mutex DnsCache}
    (hnote : (dnsNote mayMutate expireNow stampNow hostname ipv4 ttlSecs dns).2 = .error code) :
    code ∈ errorCodes := by
  unfold dnsNote at hnote
  dsimp only at hnote
  repeat' split at hnote
  all_goals
    cases hnote
    try decide

theorem isReply_noteDns {hostname ipv4 : String} {ttlSecs : Option UInt64} {response : Response}
    (hresponse : (state.noteDns context hostname ipv4 ttlSecs).2 = some response) :
    response.IsReply := by
  unfold noteDns at hresponse
  dsimp only at hresponse
  split at hresponse
  · obtain rfl := Option.some.inj hresponse
    exact Response.isReply_pong
  · next code hnote =>
    obtain rfl := Option.some.inj hresponse
    exact Response.isReply_error (mem_errorCodes_of_dnsNote hnote)
  · cases hresponse

/-- A request is answered with a reply or with the content that it asks for. Assumes: it is
answered. -/
theorem isReply_or_shows_of_dispatch {toml : Toml} {request : Request} {response : Response}
    (hresponse : (dispatch toml context state request).2 = some response) :
    response.IsReply ∨ state.Shows context response request := by
  have hpoisoned : (Response.error "lock_poisoned").IsReply :=
    Response.isReply_error (by decide)
  cases request with
  | ping =>
    obtain rfl := Option.some.inj hresponse
    exact .inl Response.isReply_pong
  | status => exact .inr (Option.some.inj hresponse).symm
  | ruleList =>
    obtain rfl := Option.some.inj hresponse
    cases hlock : state.shared.rules.lock with
    | none => exact .inl (by rwa [ruleList, hlock])
    | some rules => exact .inr ⟨rules, hlock, by rw [ruleList, hlock]⟩
  | ruleAdd id executable verdict port =>
    obtain rfl := Option.some.inj hresponse
    exact .inl (isReply_changePolicy toml context state _)
  | ruleDelete id =>
    obtain rfl := Option.some.inj hresponse
    exact .inl (isReply_changePolicy toml context state _)
  | promptAnswer id verdict scope =>
    obtain rfl := Option.some.inj hresponse
    exact .inl (isReply_changePolicy toml context state _)
  | promptList =>
    obtain rfl := Option.some.inj hresponse
    have hstore : state.policyStore.prompts = state.shared.prompts := rfl
    cases hlock : state.shared.prompts.lock with
    | none => exact .inl (by rwa [promptList, PolicyStore.promptList, hstore, hlock])
    | some prompts =>
      exact .inr ⟨prompts, hlock, by rw [promptList, PolicyStore.promptList, hstore, hlock]⟩
  | dnsList =>
    obtain rfl := Option.some.inj hresponse
    cases hlock : state.shared.dns.lock with
    | none => exact .inl (by rwa [dnsList, hlock])
    | some dns => exact .inr ⟨dns, hlock, by rw [dnsList, hlock]⟩
  | dnsNote hostname ipv4 ttlSecs => exact .inl (isReply_noteDns hresponse)
  | auditTail limit =>
    obtain rfl := Option.some.inj hresponse
    rw [auditTail]
    split
    · exact .inl hpoisoned
    · exact .inr rfl
  | auditSubscribe id since =>
    obtain rfl := Option.some.inj hresponse
    exact .inl (Response.isReply_error (by decide))
  | processList =>
    obtain rfl := Option.some.inj hresponse
    rw [processList]
    split
    · next cache recent rules hcache hrecent hrules =>
      exact .inr ⟨cache, recent, rules, hcache, hrecent, hrules, rfl⟩
    · exact .inl hpoisoned
  | networkStatus => exact .inr (Option.some.inj hresponse).symm
  | networkInstall =>
    obtain rfl := Option.some.inj hresponse
    exact .inl (isReply_mutateMode context state _ (by decide))
  | networkRemove =>
    obtain rfl := Option.some.inj hresponse
    exact .inl (isReply_mutateMode context state _ (by decide))
  | pause =>
    obtain rfl := Option.some.inj hresponse
    exact .inl (isReply_mutateMode context state _ (by decide))
  | resume =>
    obtain rfl := Option.some.inj hresponse
    exact .inl (isReply_mutateMode context state _ (by decide))
  | trafficBlock scope direction =>
    obtain rfl := Option.some.inj hresponse
    exact .inl (isReply_trafficMutate context state scope (some direction) false)
  | trafficUnblock scope =>
    obtain rfl := Option.some.inj hresponse
    exact .inl (isReply_trafficMutate context state scope none true)
  | statsSummary =>
    obtain rfl := Option.some.inj hresponse
    cases hlock : state.shared.stats.lock with
    | none => exact .inl (by rwa [statsSummary, hlock])
    | some stats => exact .inr ⟨stats, hlock, by rw [statsSummary, hlock]⟩
  | statsHosts | statsProcs | statsAddrs | statsPorts | statsUsers =>
    obtain rfl := Option.some.inj hresponse
    cases hlock : state.shared.stats.lock with
    | none => exact .inl (by rwa [statsList, hlock])
    | some stats => exact .inr ⟨stats, hlock, by rw [statsList, hlock]⟩

/-! ### What a request leaves alone -/

theorem exists_mutateMode (context : RequestContext) (state : ControlState) (request : ModeRequest)
    (failure : String) :
    ∃ enforcement, (state.mutateMode context request failure).1 = { state with enforcement } := by
  unfold mutateMode changeMode
  split_ifs
  · exact ⟨state.enforcement, rfl⟩
  · exact ⟨_, rfl⟩

theorem exists_trafficMutate (context : RequestContext) (state : ControlState) (scope : String)
    (direction : Option String) (unblock : Bool) :
    ∃ enforcement,
      (state.trafficMutate context scope direction unblock).1 = { state with enforcement } := by
  unfold trafficMutate changeMode
  repeat' split
  all_goals exact ⟨_, rfl⟩

/-- A request leaves the observation alone. -/
theorem observation_dispatch (toml : Toml) (context : RequestContext) (state : ControlState)
    (request : Request) :
    (dispatch toml context state request).1.observation = state.observation := by
  cases request with
  | dnsList =>
    rw [dispatch, answered, dnsList]
    split <;> rfl
  | networkInstall | networkRemove =>
    obtain ⟨enforcement, heq⟩ := exists_mutateMode context state _ _
    rw [dispatch, answered, networkMutate, heq]
  | pause | resume =>
    obtain ⟨enforcement, heq⟩ := exists_mutateMode context state _ _
    rw [dispatch, answered, enforcementMutate, heq]
  | trafficBlock | trafficUnblock =>
    obtain ⟨enforcement, heq⟩ := exists_trafficMutate context state _ _ _
    rw [dispatch, answered, heq]
  | _ => rfl

end ControlState

end InterFire
