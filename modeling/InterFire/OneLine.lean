import InterFire.UnbrokenTexts

/-!
# One response is one line

`Response::encode` of `crates/interfire-proto` ends a frame with a newline, and its clients read up
to the first one. The escape of the process and statistics rows leaves newlines as they are.

`newline_in_arguments` is a process whose arguments hold a newline: its row takes two lines.
`responses_are_one_line` is about the runs in which no executable of the loaded rules and no
executable or argument of an attributed process holds one: there every response and every audit frame
is one line. The invariant is `ServingDaemon.SingleLined`: no text that the daemon keeps has a
newline.
-/

set_option autoImplicit false
set_option relaxedAutoImplicit false

namespace InterFire

/-! ### Rows and responses -/

theorem unbroken_debug (verdict : Verdict) : Unbroken verdict.debug := by
  cases verdict <;> decide

theorem unbroken_encodeRule {rule : Rule} (hrule : Unbroken rule.executable) :
    Unbroken (encodeRule rule) := by
  simp only [encodeRule, unbroken_append, unbroken_decimal, unbroken_debug, hrule, true_and,
    and_true]
  decide

theorem unbroken_encodeDns {row : String × UInt32 × ℕ} (hrow : Unbroken row.1) :
    Unbroken (encodeDns row) := by
  simp only [encodeDns, unbroken_append, unbroken_decimal, unbroken_toText, hrow, true_and,
    and_true]
  decide

theorem unbroken_encodeStats {row : String × StatsCounters} (hrow : Unbroken row.1) :
    Unbroken (encodeStats row) := by
  simp only [encodeStats, StatsRow.encodeRow, unbroken_append, unbroken_decimal,
    unbroken_escapeField hrow, true_and, and_true]
  decide

theorem unbroken_encodeDest {dest : RecentDest} (hdest : Unbroken dest.verdict) :
    Unbroken (encodeDest dest) := by
  simp only [encodeDest, unbroken_append, unbroken_decimal, unbroken_toText, hdest, true_and,
    and_true]
  decide

theorem unbroken_encodeProcess {recent : RecentConnects} (hrecent : recent.SingleLined)
    (rules : RuleSet) {identity : ProcessIdentity} (hidentity : identity.SingleLined) :
    Unbroken (encodeProcess recent rules identity) := by
  have hdests : ∀ text ∈ (recent.forProcess identity.pid identity.startTicks).map encodeDest,
      Unbroken text := by
    intro text htext
    obtain ⟨dest, hdest, rfl⟩ := List.mem_map.mp htext
    rw [RecentConnects.forProcess] at hdest
    cases hget : recent.entries.get (identity.pid, identity.startTicks) with
    | none =>
      rw [hget] at hdest
      cases hdest
    | some dests =>
      rw [hget] at hdest
      exact unbroken_encodeDest (hrecent _ dests hget dest hdest)
  have hports := @unbroken_intercalate "+" _ (by decide) hdests
  have hcommand := @unbroken_intercalate " " _ (by decide) hidentity.commandLine
  simp only [encodeProcess, ProcessRow.encodeRow, unbroken_append, unbroken_decimal,
    unbroken_escapeField hidentity.executable, unbroken_escapeField hcommand,
    unbroken_toAsciiLowercase (unbroken_debug _), hports, true_and, and_true]
  decide

/-- Rows with a separator between them have no newline. Assumes: the separator and the rows have
none. -/
theorem unbroken_rows {α : Type} {separator : String} (hseparator : Unbroken separator)
    {encode : α → String} {rows : List α} (hrows : ∀ row ∈ rows, Unbroken (encode row)) :
    Unbroken (separator.intercalate (rows.map encode)) := by
  refine unbroken_intercalate hseparator fun text htext ↦ ?_
  obtain ⟨row, hrow, rfl⟩ := List.mem_map.mp htext
  exact hrows row hrow

theorem unbroken_encodePrompts {prompts : List Prompt} (now : Instant)
    (hprompts : ∀ prompt ∈ prompts, Unbroken prompt.key.executable) :
    Unbroken (encodePrompts now prompts) := by
  have hdigits := @Text.not_mem_toDigits '\n' (by decide)
  rw [Unbroken, encodePrompts, String.toList_ofList]
  intro hmem
  rcases Text.mem_of_mem_join hmem with hcomma | ⟨row, hrow, hcharacter⟩
  · exact absurd hcomma (by decide)
  · obtain ⟨prompt, hprompt, rfl⟩ := List.mem_map.mp hrow
    rcases Text.mem_of_mem_join hcharacter with hbar | ⟨field, hfield, hnewline⟩
    · exact absurd hbar (by decide)
    · simp only [List.mem_cons, List.not_mem_nil, or_false] at hfield
      rcases hfield with rfl | rfl | rfl | rfl | rfl | rfl
      · exact hdigits _ hnewline
      · exact hprompts prompt hprompt hnewline
      · exact unbroken_toText _ hnewline
      · exact hdigits _ hnewline
      · exact absurd hnewline (by decide)
      · exact hdigits _ hnewline

theorem unbroken_encodeTail {log : AuditLog}
    (hlog : ∀ record ∈ log.records, Unbroken record.message) (limit : ℕ) :
    Unbroken (log.encodeTail limit) := by
  refine unbroken_rows (by decide) fun record hrecord ↦ ?_
  have hmem : record ∈ log.records :=
    List.mem_reverse.mp (List.mem_of_mem_take (List.mem_reverse.mp hrecord))
  simp only [unbroken_append, unbroken_decimal, hlog record hmem, true_and, and_true]
  decide

theorem unbroken_asStr (preference : TrafficPreference) : Unbroken preference.asStr := by
  cases preference <;> decide

theorem unbroken_label (effective : EffectiveTraffic) : Unbroken effective.label := by
  have hcolon : Unbroken ":" := by decide
  cases effective with
  | «open» => decide
  | machine preference =>
    have hmachine : Unbroken "machine:" := by decide
    exact unbroken_append.mpr ⟨hmachine, unbroken_asStr preference⟩
  | user uid preference =>
    have huser : Unbroken "user:" := by decide
    simp only [EffectiveTraffic.label, unbroken_append]
    exact ⟨⟨⟨huser, unbroken_decimal _⟩, hcolon⟩, unbroken_asStr preference⟩

theorem unbroken_observationLabel (attached : Bool) : Unbroken (observationLabel attached) := by
  cases attached <;> decide

theorem unbroken_ofListing (listing : Option String) :
    Unbroken (NetworkStatusBody.ofListing listing).table ∧
      Unbroken (NetworkStatusBody.ofListing listing).rule := by
  have htable : Unbroken "interfire" := by decide
  have hrules : ∀ rule ∈ ["none", "tcp_new_queue_4242", "tcp_new_drop"], Unbroken rule := by
    decide
  obtain ⟨state, rule, hrule, hbody⟩ := NetworkStatusBody.exists_ofListing listing
  rw [hbody]
  exact ⟨htable, hrules rule hrule⟩

theorem unbroken_of_mem_errorCodes : ∀ code ∈ errorCodes, Unbroken code := by
  decide

theorem unbroken_snapshot {dimension : StatsDimension String} (hdimension : dimension.SingleLined) :
    ∀ row ∈ dimension.snapshot, Unbroken row.1 := by
  intro row hrow
  obtain ⟨key, _, hget⟩ := List.mem_filterMap.mp hrow
  obtain ⟨counters, hcounters, rfl⟩ := Option.map_eq_some_iff.mp hget
  exact hdimension key counters hcounters

theorem unbroken_listFresh {cache : DnsCache} (hcache : cache.SingleLined)
    (expireNow now : Instant) : ∀ row ∈ (cache.listFresh expireNow now).2, Unbroken row.1 := by
  intro row hrow
  obtain ⟨ipv4, _, hget⟩ := List.mem_filterMap.mp hrow
  obtain ⟨entry, hentry, rfl⟩ := Option.map_eq_some_iff.mp hget
  exact hcache.expire expireNow ipv4 entry hentry

/-- What a request is told from outside of the state has no newline. -/
structure RequestContext.SingleLined (context : RequestContext) : Prop where
  table : Unbroken context.network.table
  rule : Unbroken context.network.rule
  auditTail : ∀ limit, Unbroken (context.auditTail limit)
  version : Unbroken context.version
  git : Unbroken context.git

namespace ControlState

variable {context : RequestContext} {state : ControlState}

theorem unbroken_status (hobservation : Unbroken state.observation) :
    ∀ text ∈ (state.status context).texts, Unbroken text := by
  have henforcement : Unbroken state.enforcementLabel := by
    unfold enforcementLabel bindLabel
    split_ifs
    · decide
    · split <;> decide
  have htraffic : Unbroken state.traffic := by
    unfold traffic
    split_ifs <;> decide
  change ∀ text ∈ [state.enforcementLabel, state.observation, state.traffic,
    state.enforcement.machineTraffic.asStr,
    (state.enforcement.userPreference (context.peerUid.getD 0)).asStr,
    state.enforcement.trafficEffective (context.peerUid.getD 0)], Unbroken text
  simp only [List.forall_mem_cons]
  exact ⟨henforcement, hobservation, htraffic, unbroken_asStr _, unbroken_asStr _,
    unbroken_label _, List.forall_mem_nil _⟩

/-- The texts of the statistics have no newline. Assumes: their keys have none. -/
theorem unbroken_statsRows {rows : List (String × StatsCounters)}
    (hrows : ∀ row ∈ rows, Unbroken row.1) :
    Unbroken (";".intercalate (rows.map encodeStats)) :=
  unbroken_rows (by decide) fun row hrow ↦ unbroken_encodeStats (hrows row hrow)

/-- A response with content has no newline in its texts. Assumes: the state and what the request is
told have none. -/
theorem unbroken_of_shows (hshared : state.shared.SingleLined)
    (hobservation : Unbroken state.observation) (hcontext : context.SingleLined)
    {request : Request} {response : Response} (hshows : state.Shows context response request) :
    ∀ text ∈ response.texts, Unbroken text := by
  obtain ⟨hpolicy, hstats⟩ := hshared
  have hone : ∀ {value : String}, Unbroken value → ∀ text ∈ [value], Unbroken text := by
    intro value hvalue text htext
    rwa [List.mem_singleton.mp htext]
  cases request with
  | status =>
    obtain rfl := hshows
    exact unbroken_status hobservation
  | ruleList =>
    obtain ⟨rules, hlock, rfl⟩ := hshows
    obtain rfl := Mutex.value_of_lock hlock
    exact hone (unbroken_rows (by decide) fun rule hrule ↦
      unbroken_encodeRule (hpolicy.rules rule hrule))
  | promptList =>
    obtain ⟨prompts, hlock, rfl⟩ := hshows
    obtain rfl := Mutex.value_of_lock hlock
    exact hone (unbroken_encodePrompts _ fun prompt hprompt ↦
      PromptQueue.each_of_mem_listPending hpolicy.prompts hprompt)
  | dnsList =>
    obtain ⟨dns, hlock, rfl⟩ := hshows
    obtain rfl := Mutex.value_of_lock hlock
    exact hone (unbroken_rows (by decide) fun row hrow ↦
      unbroken_encodeDns (unbroken_listFresh hpolicy.dns _ _ row hrow))
  | auditTail limit =>
    obtain rfl := hshows
    exact hone (hcontext.auditTail limit)
  | processList =>
    obtain ⟨cache, recent, rules, hcache, hrecent, hrules, rfl⟩ := hshows
    obtain rfl := Mutex.value_of_lock hcache
    obtain rfl := Mutex.value_of_lock hrecent
    refine hone (unbroken_rows (by decide) fun identity hidentity ↦ ?_)
    obtain ⟨key, _, hget⟩ := List.mem_filterMap.mp hidentity
    exact unbroken_encodeProcess hpolicy.recent rules (hpolicy.cache key identity hget)
  | networkStatus =>
    obtain rfl := hshows
    exact List.forall_mem_cons.mpr ⟨hcontext.table, hone hcontext.rule⟩
  | statsSummary =>
    obtain ⟨stats, hlock, rfl⟩ := hshows
    exact List.forall_mem_cons.mpr ⟨hcontext.version, hone hcontext.git⟩
  | statsHosts =>
    obtain ⟨stats, hlock, rfl⟩ := hshows
    obtain rfl := Mutex.value_of_lock hlock
    exact hone (unbroken_statsRows (unbroken_snapshot hstats.hosts))
  | statsProcs =>
    obtain ⟨stats, hlock, rfl⟩ := hshows
    obtain rfl := Mutex.value_of_lock hlock
    exact hone (unbroken_statsRows (unbroken_snapshot hstats.procs))
  | statsAddrs =>
    obtain ⟨stats, hlock, rfl⟩ := hshows
    obtain rfl := Mutex.value_of_lock hlock
    exact hone (unbroken_statsRows (unbroken_snapshot hstats.addrs))
  | statsPorts | statsUsers =>
    obtain ⟨stats, hlock, rfl⟩ := hshows
    refine hone (unbroken_statsRows fun row hrow ↦ ?_)
    obtain ⟨counted, _, rfl⟩ := List.mem_map.mp hrow
    exact unbroken_decimal _
  | _ => exact hshows.elim

/-- A request is answered without a newline in the texts. Assumes: the state and what the request is
told have none, and it is answered. -/
theorem unbroken_dispatch (hshared : state.shared.SingleLined)
    (hobservation : Unbroken state.observation) (hcontext : context.SingleLined) {toml : Toml}
    {request : Request} {response : Response}
    (hresponse : (dispatch toml context state request).2 = some response) :
    ∀ text ∈ response.texts, Unbroken text := by
  rcases isReply_or_shows_of_dispatch hresponse with (rfl | ⟨code, hcode, rfl⟩) | hshows
  · exact nofun
  · intro text htext
    rw [List.mem_singleton.mp htext]
    exact unbroken_of_mem_errorCodes code hcode
  · exact unbroken_of_shows hshared hobservation hcontext hshows

end ControlState

/-! ### The audit log -/

namespace AuditLog

/-- The messages in memory have no newline. -/
def SingleLined (log : AuditLog) : Prop := ∀ record ∈ log.records, Unbroken record.message

theorem SingleLined.append {log : AuditLog} (hlog : log.SingleLined) (file : Option (List Char))
    {message : String} (hmessage : Unbroken message) : (log.append file message).1.SingleLined := by
  have hpushed : ∀ record ∈ Window.push log.maxRecords log.records (log.nextRecord message),
      Unbroken record.message := by
    intro record hrecord
    rcases Window.mem_of_mem_push hrecord with hbefore | rfl
    · exact hlog record hbefore
    · exact hmessage
  intro record hrecord
  simp only [AuditLog.append, persistRecord] at hrecord
  split_ifs at hrecord
  · exact hpushed record ((Window.trim_suffix _ _ _).subset hrecord)
  · exact hpushed record hrecord

/-- The message of a line has no newline. Assumes: the line has none, and is a record. -/
theorem unbroken_parseRecord {line : List Char} (hline : '\n' ∉ line) {record : BoundedLogRecord}
    (hrecord : parseRecord line = some record) : Unbroken record.message := by
  unfold parseRecord at hrecord
  split at hrecord
  · cases hrecord
  · next sequence message hsplit =>
    obtain ⟨number, _, rfl⟩ := Option.map_eq_some_iff.mp hrecord
    rw [Unbroken, String.toList_ofList]
    exact fun hmem ↦ hline (Text.mem_of_mem_splitOnce hsplit hmem)

theorem newline_not_mem_of_mem_fileLines {text line : List Char} (hline : line ∈ Text.fileLines text) :
    '\n' ∉ line := by
  have hpieces : ∀ piece ∈ text.splitOn '\n', '\n' ∉ piece := by
    intro piece hpiece hmem
    simpa using Text.not_of_mem_splitOnP hpiece '\n' hmem
  rcases List.mem_append.mp hline with hended | hlast
  · obtain ⟨piece, hpiece, rfl⟩ := List.mem_map.mp hended
    have hnone := hpieces piece (List.mem_of_mem_dropLast hpiece)
    unfold Text.stripReturn
    split_ifs
    · exact fun hmem ↦ hnone (List.mem_of_mem_dropLast hmem)
    · exact hnone
  · obtain rfl := List.mem_singleton.mp (List.mem_of_mem_filter hlast)
    cases hpiece : (text.splitOn '\n').getLast? with
    | none => exact nofun
    | some piece => exact hpieces piece (List.mem_of_getLast? hpiece)

/-- A log that is opened has no newline in its messages. -/
theorem singleLined_openLog (file : Option (List Char)) (maxBytes : ℕ) {maxRecords : ℕ}
    (hpos : 0 < maxRecords) : (openLog file maxBytes maxRecords hpos).SingleLined := by
  have hload : ∀ (lines : List (List Char)) (log : AuditLog), (∀ line ∈ lines, '\n' ∉ line) →
      log.SingleLined → (lines.foldl loadLine log).SingleLined := by
    intro lines
    induction lines with
    | nil => exact fun _ _ hlog ↦ hlog
    | cons line rest ih =>
      intro log hlines hlog
      refine ih _ (fun later hlater ↦ hlines later (.tail line hlater)) ?_
      unfold loadLine
      split
      · exact hlog
      · next loaded hparse =>
        intro record hrecord
        rcases Window.mem_of_mem_push hrecord with hbefore | rfl
        · exact hlog record hbefore
        · exact unbroken_parseRecord (hlines line List.mem_cons_self) hparse
  cases file with
  | none => exact nofun
  | some text =>
    exact hload _ _ (fun line hline ↦ newline_not_mem_of_mem_fileLines hline) nofun

end AuditLog

theorem unbroken_auditMessage {decision : Decision} (hdecision : decision.SingleLined) :
    Unbroken (Observe.auditMessage decision) := by
  have hattributed : Unbroken (toString decision.attributed) := by
    cases decision.attributed <;> decide
  have houtcome : Unbroken (decision.stats.elim "deny" ConnectStats.verdict) := by
    cases hstats : decision.stats with
    | none => exact (by decide : Unbroken "deny")
    | some stats => exact (hdecision stats hstats).verdict
  have hport : Unbroken (toString decision.key.port.toNat) := unbroken_decimal _
  change Unbroken ("connect port=" ++ toString decision.key.port.toNat ++ " attributed=" ++
    toString decision.attributed ++ " outcome=" ++ decision.stats.elim "deny" ConnectStats.verdict)
  simp only [unbroken_append, hport, hattributed, houtcome, and_true]
  decide

/-! ### Runs -/

theorem PolicyLocks.values_of_lock {locks : PolicyLocks} {policy : PolicyState}
    (hlock : locks.lock = some policy) : locks.values = policy := by
  simp only [PolicyLocks.lock, Option.bind_eq_bind, Option.bind_eq_some_iff, Option.pure_def,
    Option.some.injEq] at hlock
  obtain ⟨rules, hrules, cache, hcache, prompts, hprompts, dns, hdns, recent, hrecent, rfl⟩ := hlock
  rw [PolicyLocks.values, Mutex.value_of_lock hrules, Mutex.value_of_lock hcache,
    Mutex.value_of_lock hprompts, Mutex.value_of_lock hdns, Mutex.value_of_lock hrecent]

/-- The texts that a daemon keeps have no newline. -/
structure ServingDaemon.SingleLined (daemon : ServingDaemon) : Prop where
  shared : daemon.control.shared.SingleLined
  observation : Unbroken daemon.control.observation
  log : daemon.log.SingleLined
  decisions : ∀ decision ∈ daemon.decisions, decision.SingleLined
  git : Unbroken daemon.git

/-- A step brings in no newline: neither the executable nor an argument of the process that an event
is attributed to has one. -/
def ServingDaemon.BringsNoNewline (daemon : ServingDaemon) : ServingOp → Prop
  | .decide _ reads event => ∀ policy, daemon.control.shared.toPolicyLocks.lock = some policy →
      ∀ identity cache, Policy.attributeEvent reads event policy.cache = .ok (identity, cache) →
        identity.SingleLined
  | _ => True

/-- Every step of a run brings in no newline. -/
def ServingDaemon.NoNewlineRun (toml : Toml) (daemon : ServingDaemon) : List ServingOp → Prop
  | [] => True
  | op :: rest => daemon.BringsNoNewline op ∧ (daemon.step toml op).NoNewlineRun toml rest

namespace ServingDaemon

variable {toml : Toml} {daemon : ServingDaemon}

theorem SingleLined.context (hdaemon : daemon.SingleLined) (context : RequestContext)
    (listing : Option String) : (daemon.context context listing).SingleLined where
  table := (unbroken_ofListing listing).1
  rule := (unbroken_ofListing listing).2
  auditTail := unbroken_encodeTail hdaemon.log
  version := show Unbroken packageVersion by decide
  git := hdaemon.git

/-- A line is answered with one line. Assumes: the texts of the daemon have no newline, and the line
is answered. -/
theorem SingleLined.oneLine_handle (hdaemon : daemon.SingleLined) {context : RequestContext}
    {listing : Option String} {frame : List Char} {response : Response}
    (hresponse : (daemon.handle toml context listing frame).2 = some response) :
    Text.OneLine response.encode.toList := by
  refine Response.oneLine_encode ?_
  have hcode : ∀ code ∈ errorCodes, ∀ text ∈ (Response.error code).texts, Unbroken text := by
    intro code hcode text htext
    rw [List.mem_singleton.mp htext]
    exact unbroken_of_mem_errorCodes code hcode
  unfold handle at hresponse
  split_ifs at hresponse
  · obtain rfl := Option.some.inj hresponse
    exact hcode _ (by decide)
  split at hresponse
  · obtain rfl := Option.some.inj hresponse
    exact hcode _ (by decide)
  · next id since hparse =>
    obtain rfl := Option.some.inj hresponse
    unfold auditSubscribe
    split_ifs
    · split
      · exact hcode _ (by decide)
      · -- The id of a subscription is a word of the line.
        intro text htext
        exact unbroken_of_isWord (Request.isWord_of_parse hparse text htext)
    · exact hcode _ (by decide)
  · exact ControlState.unbroken_dispatch hdaemon.shared hdaemon.observation
      (hdaemon.context context listing) hresponse

theorem SingleLined.handle (hdaemon : daemon.SingleLined) (context : RequestContext)
    (listing : Option String) (frame : List Char) :
    (daemon.handle toml context listing frame).1.SingleLined := by
  unfold ServingDaemon.handle
  split_ifs
  · exact hdaemon
  split
  · exact hdaemon
  · exact hdaemon
  · next request _ hparse =>
    have htexts : ∀ text ∈ request.texts, Unbroken text := fun text htext ↦
      unbroken_of_isWord (Request.isWord_of_parse hparse text htext)
    refine ⟨ControlState.singleLined_dispatch hdaemon.shared htexts, ?_, hdaemon.log,
      hdaemon.decisions, hdaemon.git⟩
    change Unbroken (dispatch toml _ daemon.control request).1.observation
    rw [ControlState.observation_dispatch]
    exact hdaemon.observation

theorem SingleLined.decide (hdaemon : daemon.SingleLined) {clock : DecideClock} {reads : ProcReads}
    {event : TcpConnectEvent} (hbrings : daemon.BringsNoNewline (.decide clock reads event)) :
    (daemon.decide clock reads event).SingleLined := by
  cases hlock : daemon.control.shared.toPolicyLocks.lock with
  | none =>
    have hnone : Observe.decideSection clock reads event daemon.control.shared = none := by
      rw [Observe.decideSection, hlock]
      rfl
    rw [ServingDaemon.decide, hnone]
    exact hdaemon
  | some policy =>
    have hpolicy : policy.SingleLined :=
      PolicyLocks.values_of_lock hlock ▸ hdaemon.shared.policy
    obtain ⟨hafter, hdecision⟩ := @Policy.singleLined_decide clock reads event policy hpolicy
      (hbrings policy hlock)
    have hsome : Observe.decideSection clock reads event daemon.control.shared =
        some ({ daemon.control.shared with
          toPolicyLocks := daemon.control.shared.toPolicyLocks.store
            (Policy.decide clock reads event policy).1 }, (Policy.decide clock reads event policy).2) := by
      rw [Observe.decideSection, hlock]
      rfl
    rw [ServingDaemon.decide, hsome]
    refine ⟨⟨hafter, hdaemon.shared.stats⟩, hdaemon.observation, hdaemon.log, ?_, hdaemon.git⟩
    intro decision hmem
    rcases List.mem_append.mp hmem with hbefore | hnew
    · exact hdaemon.decisions decision hbefore
    · rw [List.mem_singleton.mp hnew]
      exact hdecision

/-- What is done with a decision keeps a property. Assumes: it holds, and it is kept for every
decision that was made. -/
theorem withDecision_induction {property : ServingDaemon → Prop} (hdaemon : property daemon)
    {act : Decision → ServingDaemon} (hact : ∀ decision ∈ daemon.decisions, property (act decision))
    (index : ℕ) : property (daemon.withDecision index act) := by
  unfold withDecision
  split
  · exact hdaemon
  · next decision hget => exact hact decision (List.mem_of_getElem? hget)

theorem SingleLined.count (hdaemon : daemon.SingleLined) {decision : Decision}
    (hdecision : decision.SingleLined) : (daemon.count decision).SingleLined := by
  refine ⟨?_, hdaemon.observation, hdaemon.log, hdaemon.decisions, hdaemon.git⟩
  obtain ⟨hpolicy, hstats⟩ := hdaemon.shared
  change (Observe.statsSection decision daemon.control.shared).SingleLined
  unfold Observe.statsSection
  split
  · next stats hlock =>
    have hbefore : stats.SingleLined := Mutex.value_of_lock hlock ▸ hstats
    refine ⟨hpolicy, ?_⟩
    cases hhit : decision.stats with
    | none => exact ⟨hbefore.hosts, hbefore.procs, hbefore.addrs⟩
    | some hit => exact hbefore.record (hdecision hit hhit)
  · exact ⟨hpolicy, hstats⟩

theorem SingleLined.record (hdaemon : daemon.SingleLined) (file : Option (List Char))
    {decision : Decision} (hdecision : decision.SingleLined) :
    (daemon.record file decision).SingleLined := by
  unfold ServingDaemon.record
  split
  · exact hdaemon
  · have hlog := hdaemon.log.append file (unbroken_auditMessage hdecision)
    refine ⟨?_, hdaemon.observation, hlog, hdaemon.decisions, hdaemon.git⟩
    change (Observe.auditSection decision daemon.control.shared).SingleLined
    unfold Observe.auditSection
    split
    · exact ⟨hdaemon.shared.policy, hdaemon.shared.stats⟩
    · exact hdaemon.shared

/-- A step keeps to texts without a newline. Assumes: the daemon has none, and the step brings in
none. -/
theorem SingleLined.step (hdaemon : daemon.SingleLined) {op : ServingOp}
    (hbrings : daemon.BringsNoNewline op) : (daemon.step toml op).SingleLined := by
  cases op with
  | decide clock reads event => exact hdaemon.decide hbrings
  | keep index expireNow stampNow =>
    refine withDecision_induction hdaemon (fun decision _ ↦ ?_) index
    refine ⟨?_, hdaemon.observation, hdaemon.log, hdaemon.decisions, hdaemon.git⟩
    change (Observe.pendingSection expireNow stampNow decision daemon.control.shared).SingleLined
    unfold Observe.pendingSection
    split
    · exact ⟨hdaemon.shared.policy, hdaemon.shared.stats⟩
    · exact hdaemon.shared
  | count index =>
    exact withDecision_induction hdaemon
      (fun decision hmem ↦ hdaemon.count (hdaemon.decisions decision hmem)) index
  | record index file =>
    exact withDecision_induction hdaemon
      (fun decision hmem ↦ hdaemon.record file (hdaemon.decisions decision hmem)) index
  | serve context listing frame => exact hdaemon.handle context listing frame
  | others pending enforcement attached =>
    exact ⟨⟨hdaemon.shared.policy, hdaemon.shared.stats⟩, unbroken_observationLabel attached,
      hdaemon.log, hdaemon.decisions, hdaemon.git⟩

theorem SingleLined.after (hdaemon : daemon.SingleLined) {ops : List ServingOp}
    (hops : daemon.NoNewlineRun toml ops) : (daemon.after toml ops).SingleLined := by
  induction ops generalizing daemon with
  | nil => exact hdaemon
  | cons op rest ih => exact ih (hdaemon.step hops.1) hops.2

/-- A daemon that has just started has no newline in its texts. Assumes: the rules that it has
loaded, its log and its stamp have none. -/
theorem singleLined_start {directory : RulesDirectory} {store : PolicyStore}
    (hstart : PolicyStore.start toml directory = some store)
    (hrules : ∀ rule ∈ store.rules.value.rules, Unbroken rule.executable) {log : AuditLog}
    (hlog : log.SingleLined) (attached : Bool) {git : String} (hgit : Unbroken git) :
    (ServingDaemon.start store log attached git).SingleLined := by
  unfold PolicyStore.start at hstart
  split at hstart
  · obtain rfl := Option.some.inj hstart
    refine ⟨⟨⟨hrules, ?_, ?_, ?_, ?_⟩, ⟨?_, ?_, ?_⟩⟩, unbroken_observationLabel attached, hlog, nofun,
      hgit⟩
    all_goals exact nofun
  · cases hstart

end ServingDaemon

/-- One response is one line. Along every run in which no executable of the loaded rules and no
executable or argument of an attributed process has a newline, every line that is answered is
answered with one line, and so are the frames of the records in memory and of every record that is
appended. Assumes: the stamp of the build is one line. -/
theorem responses_are_one_line {toml : Toml} {directory : RulesDirectory} {store : PolicyStore}
    (hstart : PolicyStore.start toml directory = some store)
    (hrules : ∀ rule ∈ store.rules.value.rules, Unbroken rule.executable)
    (file : Option (List Char)) (maxBytes : ℕ) {maxRecords : ℕ} (hpos : 0 < maxRecords)
    (attached : Bool) {git : String} (hgit : Unbroken git) {ops : List ServingOp}
    (hops : (ServingDaemon.start store (.openLog file maxBytes maxRecords hpos) attached
      git).NoNewlineRun toml ops) :
    let daemon := (ServingDaemon.start store (.openLog file maxBytes maxRecords hpos) attached
      git).after toml ops
    (∀ context listing frame response,
      (daemon.handle toml context listing frame).2 = some response →
        Text.OneLine response.encode.toList) ∧
      (∀ record ∈ daemon.log.records, Text.OneLine (encodeAuditFrame record).toList) ∧
      ∀ decision ∈ daemon.decisions, Text.OneLine
        (encodeAuditFrame (daemon.log.nextRecord (Observe.auditMessage decision))).toList := by
  intro daemon
  have hdaemon : daemon.SingleLined :=
    (ServingDaemon.singleLined_start hstart hrules
      (AuditLog.singleLined_openLog file maxBytes hpos) attached hgit).after hops
  have hframe : ∀ record : BoundedLogRecord, Unbroken record.message →
      Text.OneLine (encodeAuditFrame record).toList := by
    intro record hmessage
    refine oneLine_append ?_
    simp only [unbroken_append, unbroken_decimal, hmessage, and_true]
    decide
  refine ⟨fun _ _ _ _ hresponse ↦ hdaemon.oneLine_handle hresponse,
    fun record hrecord ↦ hframe record (hdaemon.log record hrecord), fun decision hmem ↦ ?_⟩
  exact hframe _ (unbroken_auditMessage (hdaemon.decisions decision hmem))

/-! ### A shell -/

/-- The files of a shell with pid 7. -/
def shellReads (cmdline : String) : ProcReads :=
  { stat := .ok "7 (sh) S 1 7 7 0 0 0 0 0 0 0 0 0 0 0 20 0 1 0 99"
    exe := .ok "/usr/bin/dash"
    cmdline := .ok cmdline
    status := .ok "Uid:\t1000"
    cgroup := .ok "0::/" }

/-- A connect of the shell is decided, counted and recorded. -/
def shellRun (cmdline : String) : List ServingOp :=
  [.decide (.at 0) (shellReads cmdline)
    { pid := 7, processStartTicks := 0, destinationIpv4 := 16909060, destinationPort := 443,
      reserved := 0 },
    .count 0, .record 0 none]

/-- A daemon without rules and with an empty log, after a connect of the shell. -/
def shellDaemon (cmdline : String) : ServingDaemon :=
  (ServingDaemon.start .fresh (.openLog none 1000 10 (by decide)) true "unknown").after curlToml
    (shellRun cmdline)

/-- The responses after the connect of a shell with the arguments `-c` and `ls` are one line; the
process list is one of them. -/
theorem plain_arguments_are_one_line :
    (∃ response, ((shellDaemon "sh\x00-c\x00ls\x00").handle curlToml .ordinary none
      "v1 process-list\n".toList).2 = some response ∧
      response.encode =
        "v1 processes 7|99|1000|prompt|4.3.2.1:443/prompt|/usr/bin/dash|sh -c ls\n") ∧
      ∀ context listing frame response,
        ((shellDaemon "sh\x00-c\x00ls\x00").handle curlToml context listing frame).2 = some response →
          Text.OneLine response.encode.toList := by
  have hstart : PolicyStore.start curlToml ⟨none, none⟩ = some .fresh := rfl
  have hresolve : Process.resolve (shellReads "sh\x00-c\x00ls\x00") 7 0 =
      .ok ⟨7, 99, "/usr/bin/dash", ["sh", "-c", "ls"], 1000, "0::/"⟩ := by decide
  have hrun : (ServingDaemon.start .fresh (.openLog none 1000 10 (by decide)) true
      "unknown").NoNewlineRun curlToml (shellRun "sh\x00-c\x00ls\x00") := by
    refine ⟨?_, trivial, trivial, trivial⟩
    rintro policy - identity cache hattributed
    -- An event without a start time is attributed to what the files say.
    have hcached : ∀ cached : Option ProcessIdentity, cached.filter (fun _ ↦ false) = none := by
      intro cached
      cases cached <;> rfl
    simp only [Policy.attributeEvent, ne_eq, not_true_eq_false, decide_false, hcached,
      hresolve] at hattributed
    obtain ⟨rfl, _⟩ := Prod.mk.inj (Except.ok.inj hattributed)
    exact ⟨by decide, by decide⟩
  refine ⟨⟨.processes "7|99|1000|prompt|4.3.2.1:443/prompt|/usr/bin/dash|sh -c ls", ?_, ?_⟩, ?_⟩
  · decide
  · decide
  · have hrules : ∀ rule ∈ PolicyStore.fresh.rules.value.rules, Unbroken rule.executable :=
      fun rule hmem ↦ absurd hmem List.not_mem_nil
    have hgit : Unbroken "unknown" := by decide
    exact (responses_are_one_line hstart hrules none 1000 (by decide) true hgit hrun).1

/-- The process list after the connect of a shell with a newline in an argument is two lines. -/
theorem newline_in_arguments :
    (∃ response, ((shellDaemon "sh\x00-c\x00a\nb\x00").handle curlToml .ordinary none
      "v1 process-list\n".toList).2 = some response ∧
      response.encode =
        "v1 processes 7|99|1000|prompt|4.3.2.1:443/prompt|/usr/bin/dash|sh -c a\nb\n" ∧
      ¬ Text.OneLine response.encode.toList) := by
  refine ⟨.processes "7|99|1000|prompt|4.3.2.1:443/prompt|/usr/bin/dash|sh -c a\nb", ?_, ?_, ?_⟩
  · decide
  · decide
  · rintro ⟨body, hbody, hnone⟩
    have hcount := congrArg (List.count '\n') hbody
    rw [List.count_append, List.count_eq_zero.mpr hnone] at hcount
    exact absurd hcount (by decide)

end InterFire
