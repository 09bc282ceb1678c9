import InterFire.ListFrames
import InterFire.Serving

/-!
# The size of a response

The clients of the daemon (`one_shot` of `crates/interfire-tui` and its sibling in the desktop UI)
turn away a line of more than `MAX_FRAME_BYTES` bytes. The daemon does not look at the size of what
it answers: the caps of its collections are set independently of the frame, and rules have none.

`responses_fit_iff` counts the bytes. In every run, all responses fit the frame exactly when each
request meets a state whose rows are small enough: `ServingDaemon.Fits` gives the sum for each list,
in terms of the fields of the rows. Every other response fits always. `two_rules_do_not_fit` is a
run in which two rules are added and then listed.
-/

set_option autoImplicit false
set_option relaxedAutoImplicit false

namespace InterFire

/-! ### Sizes of texts -/

/-- The bytes of a text. -/
def bytes (text : String) : ℕ := Text.byteLength text.toList

/-- The digits of a number. -/
def digits (value : ℕ) : ℕ := (Nat.toDigits 10 value).length

/-- The bytes of a text in which three characters are escaped. -/
def escapedBytes (text : String) : ℕ :=
  (text.toList.map fun character ↦
    if character = '%' ∨ character = '|' ∨ character = ';' then 3 else character.utf8Size).sum

/-- The bytes of an address. -/
def addressBytes (octets : Octets) : ℕ :=
  digits octets.first.toNat + digits octets.second.toNat + digits octets.third.toNat +
    digits octets.fourth.toNat + 3

@[simp] theorem bytes_append (first second : String) :
    bytes (first ++ second) = bytes first + bytes second := by
  simp [bytes]

theorem byteLength_toDigits (value : ℕ) :
    Text.byteLength (Nat.toDigits 10 value) = digits value := by
  have hone : ∀ digit ∈ Nat.toDigits 10 value, digit.utf8Size = 1 := by
    intro digit hdigit
    have hisDigit : digit.isDigit = true :=
      Nat.isDigit_of_mem_toDigits (by decide) (by decide) hdigit
    simp only [Char.isDigit, Bool.and_eq_true, decide_eq_true_eq] at hisDigit
    have hbound : (57 : UInt32) ≤ 127 := by decide
    exact Char.utf8Size_eq_one_iff.mpr (UInt32.le_trans hisDigit.2 hbound)
  rw [Text.byteLength, List.map_congr_left hone, digits]
  simp

@[simp] theorem bytes_decimal (value : ℕ) : bytes (decimal value) = digits value := by
  rw [bytes, toList_decimal, byteLength_toDigits]

/-- A number has no more digits than its bound. Assumes: it is below the bound. -/
theorem digits_le {value count : ℕ} (hpos : 0 < count) (hlt : value < 10 ^ count) :
    digits value ≤ count :=
  Nat.toDigits_length 10 value count hpos hlt

@[simp] theorem bytes_toText (octets : Octets) : bytes octets.toText = addressBytes octets := by
  have hdot : ∀ rest, Text.byteLength ('.' :: rest) = 1 + Text.byteLength rest := by
    intro rest
    simp [Text.byteLength]
    decide
  simp only [bytes, Octets.toText, String.toList_ofList, Octets.toChars, Text.byteLength_append,
    hdot, byteLength_toDigits, addressBytes]
  omega

@[simp] theorem bytes_escapeField (text : String) :
    bytes (escapeField text) = escapedBytes text := by
  have htoken : ∀ character, Text.byteLength (escapeToken character) =
      if character = '%' ∨ character = '|' ∨ character = ';' then 3 else character.utf8Size := by
    intro character
    split_ifs with hspecial
    · rcases hspecial with rfl | rfl | rfl <;> decide
    · obtain ⟨hpercent, bytes_bar, hsemicolon⟩ : character ≠ '%' ∧ character ≠ '|' ∧ character ≠ ';' := by
        tauto
      rw [escapeToken_of_ne hpercent bytes_bar hsemicolon]
      simp [Text.byteLength]
  rw [bytes, toList_escapeField, Text.byteLength_flatMap, escapedBytes]
  exact congrArg List.sum (List.map_congr_left fun character _ ↦ htoken character)

@[simp] theorem bytes_bar : bytes "|" = 1 := rfl

@[simp] theorem bytes_colon : bytes ":" = 1 := rfl

@[simp] theorem bytes_slash : bytes "/" = 1 := rfl

@[simp] theorem bytes_newline : bytes "\n" = 1 := rfl

/-- The bytes of rows with a separator between them and one more. Assumes: there is a row, and the
separator takes one byte. -/
theorem bytes_intercalate_add_one {separator : Char} (hseparator : separator.utf8Size = 1)
    {rows : List String} (hne : rows ≠ []) :
    bytes ((String.singleton separator).intercalate rows) + 1 =
      (rows.map fun row ↦ bytes row + 1).sum := by
  have hjoin : ((String.singleton separator).intercalate rows).toList =
      Text.join separator (rows.map String.toList) := by
    simp [Text.join]
  have hpieces : rows.map String.toList ≠ [] := by
    simpa using hne
  rw [bytes, hjoin, Text.byteLength_join_add_one hseparator hpieces, List.map_map]
  rfl

/-! ### Sizes of rows -/

/-- The bytes of the name of a verdict. -/
def Verdict.nameBytes : Verdict → ℕ
  | .allow => 5
  | .deny => 4
  | .prompt => 6

/-- The bytes of a rule: its four fields and three separators. -/
def Rule.rowBytes (rule : Rule) : ℕ :=
  digits rule.id.toNat + bytes rule.executable + rule.verdict.nameBytes +
    digits (rule.port.getD 0).toNat + 3

/-- The bytes of a prompt: its five fields, the three letters of the protocol and five
separators. -/
def Prompt.rowBytes (now : Instant) (prompt : Prompt) : ℕ :=
  digits prompt.id.toNat + bytes prompt.key.executable + bytes prompt.key.ipv4Display +
    digits prompt.key.port.toNat + digits (prompt.remainingSecs now) + 8

/-- The bytes of a name: its three fields and two separators. -/
def dnsRowBytes (row : String × UInt32 × ℕ) : ℕ :=
  bytes row.1 + addressBytes (Octets.toNeBytes row.2.1) + digits row.2.2 + 2

/-- The bytes of a record: its two fields and a separator. -/
def BoundedLogRecord.rowBytes (record : BoundedLogRecord) : ℕ :=
  digits record.sequence.toNat + bytes record.message + 1

/-- The bytes of a row of the statistics: its key, its four counters and four separators. -/
def statsRowBytes (row : String × StatsCounters) : ℕ :=
  escapedBytes row.1 + digits row.2.hits.toNat + digits row.2.allow.toNat +
    digits row.2.deny.toNat + digits row.2.prompt.toNat + 4

/-- The bytes of a destination: its three fields and two separators. -/
def RecentDest.rowBytes (dest : RecentDest) : ℕ :=
  addressBytes dest.ipv4 + digits dest.port.toNat + bytes dest.verdict + 2

/-- The bytes of texts with a separator between them. -/
def joinedBytes (sizes : List ℕ) : ℕ := (sizes.map (· + 1)).sum - 1

/-- The bytes of a process: its seven fields and six separators. -/
def ProcessIdentity.rowBytes (recent : RecentConnects) (rules : RuleSet)
    (identity : ProcessIdentity) : ℕ :=
  digits identity.pid.toNat + digits identity.startTicks.toNat + digits identity.uid.toNat +
    (rules.verdictFor
      { executable := identity.executable, protocol := .tcp, direction := .outbound,
        address := .v4 ⟨0, 0, 0, 0⟩, hostname := none, port := 0 }).nameBytes +
    joinedBytes ((recent.forProcess identity.pid identity.startTicks).map RecentDest.rowBytes) +
    escapedBytes identity.executable +
    escapedBytes (" ".intercalate identity.commandLine) + 6

theorem bytes_debug (verdict : Verdict) : bytes verdict.debug = verdict.nameBytes := by
  cases verdict <;> rfl

theorem bytes_toAsciiLowercase_debug (verdict : Verdict) :
    bytes (Text.toAsciiLowercase verdict.debug) = verdict.nameBytes := by
  cases verdict <;> rfl

theorem bytes_encodeRule (rule : Rule) : bytes (encodeRule rule) = rule.rowBytes := by
  simp only [encodeRule, bytes_append, bytes_decimal, bytes_debug, bytes_bar, Rule.rowBytes]
  omega

theorem byteLength_encodePrompt (now : Instant) (prompt : Prompt) :
    Text.byteLength (encodePrompt now prompt) = prompt.rowBytes now := by
  have hjoin := @Text.byteLength_join_add_one '|' (by decide)
    [Nat.toDigits 10 prompt.id.toNat, prompt.key.executable.toList, prompt.key.ipv4Display.toList,
      Nat.toDigits 10 prompt.key.port.toNat, ['t', 'c', 'p'],
      Nat.toDigits 10 (prompt.remainingSecs now)] (by simp)
  have htcp : Text.byteLength ['t', 'c', 'p'] = 3 := by decide
  simp only [List.map_cons, List.map_nil, List.sum_cons, List.sum_nil, byteLength_toDigits,
    htcp] at hjoin
  rw [encodePrompt, Prompt.rowBytes, bytes, bytes]
  omega

theorem bytes_encodeDns (row : String × UInt32 × ℕ) : bytes (encodeDns row) = dnsRowBytes row := by
  simp only [encodeDns, bytes_append, bytes_decimal, bytes_toText, bytes_bar, dnsRowBytes]
  omega

theorem bytes_encodeStats (row : String × StatsCounters) :
    bytes (encodeStats row) = statsRowBytes row := by
  simp only [encodeStats, StatsRow.encodeRow, bytes_append, bytes_decimal, bytes_escapeField, bytes_bar,
    statsRowBytes]
  omega

theorem bytes_encodeDest (dest : RecentDest) : bytes (encodeDest dest) = dest.rowBytes := by
  simp only [encodeDest, bytes_append, bytes_decimal, bytes_toText, bytes_colon, bytes_slash,
    RecentDest.rowBytes]
  omega

/-- The bytes of rows with a separator between them. Assumes: the separator takes one byte. -/
theorem bytes_intercalate {α : Type} {separator : Char} (hseparator : separator.utf8Size = 1)
    {encode : α → String} {size : α → ℕ} (hsize : ∀ row, bytes (encode row) = size row)
    (rows : List α) :
    bytes ((String.singleton separator).intercalate (rows.map encode)) =
      joinedBytes (rows.map size) := by
  by_cases hempty : rows = []
  · subst hempty
    rfl
  · have hne : rows.map encode ≠ [] := by simpa using hempty
    have hsum := bytes_intercalate_add_one hseparator hne
    rw [List.map_map, List.map_congr_left (g := fun row ↦ size row + 1)] at hsum
    · rw [joinedBytes, List.map_map]
      exact Nat.eq_sub_of_add_eq hsum
    · intro row _
      exact congrArg (· + 1) (hsize row)

theorem bytes_encodeProcess (recent : RecentConnects) (rules : RuleSet)
    (identity : ProcessIdentity) :
    bytes (encodeProcess recent rules identity) = identity.rowBytes recent rules := by
  have hports : bytes ("+".intercalate ((recent.forProcess identity.pid identity.startTicks).map
      encodeDest)) = joinedBytes ((recent.forProcess identity.pid identity.startTicks).map
        RecentDest.rowBytes) :=
    @bytes_intercalate _ '+' (by decide) _ _ bytes_encodeDest _
  simp only [encodeProcess, ProcessRow.encodeRow, bytes_append, bytes_decimal, bytes_escapeField,
    bytes_toAsciiLowercase_debug, hports, bytes_bar, ProcessIdentity.rowBytes]
  omega

/-! ### Sizes of responses -/

/-- The bytes of a frame with one text. Assumes: the bytes of the label and of the newline. -/
theorem bytes_frame {label : String} {size : ℕ} (hlabel : bytes label + 1 = size)
    (payload : String) : bytes (label ++ payload ++ "\n") = size + bytes payload := by
  rw [bytes_append, bytes_append, bytes_newline]
  omega

theorem bytes_encodePrompts (now : Instant) (prompts : List Prompt) :
    bytes (encodePrompts now prompts) = joinedBytes (prompts.map (Prompt.rowBytes now)) := by
  have hrows : (encodePrompts now prompts) = (String.singleton ',').intercalate
      (prompts.map fun prompt ↦ String.ofList (encodePrompt now prompt)) := by
    rw [← String.toList_inj]
    simp [encodePrompts, Text.join, Function.comp_def]
  rw [hrows]
  refine bytes_intercalate (by decide) (fun prompt ↦ ?_) prompts
  rw [bytes, String.toList_ofList, byteLength_encodePrompt]

theorem bytes_encodeTail (log : AuditLog) (limit : ℕ) :
    bytes (log.encodeTail limit) = joinedBytes ((log.tail limit).map BoundedLogRecord.rowBytes) := by
  refine @bytes_intercalate _ ',' (by decide) _ _ (fun record ↦ ?_) _
  rw [bytes_append, bytes_append, bytes_decimal, bytes_bar, BoundedLogRecord.rowBytes]
  omega

theorem bytes_ruleRows (rules : List Rule) :
    bytes (",".intercalate (rules.map encodeRule)) = joinedBytes (rules.map Rule.rowBytes) :=
  @bytes_intercalate _ ',' (by decide) _ _ bytes_encodeRule rules

theorem bytes_dnsRows (rows : List (String × UInt32 × ℕ)) :
    bytes (",".intercalate (rows.map encodeDns)) = joinedBytes (rows.map dnsRowBytes) :=
  @bytes_intercalate _ ',' (by decide) _ _ bytes_encodeDns rows

theorem bytes_processRows (recent : RecentConnects) (rules : RuleSet)
    (identities : List ProcessIdentity) :
    bytes (";".intercalate (identities.map (encodeProcess recent rules))) =
      joinedBytes (identities.map (ProcessIdentity.rowBytes recent rules)) :=
  @bytes_intercalate _ ';' (by decide) _ _ (bytes_encodeProcess recent rules) identities

theorem bytes_statsRows (rows : List (String × StatsCounters)) :
    bytes (";".intercalate (rows.map encodeStats)) = joinedBytes (rows.map statsRowBytes) :=
  @bytes_intercalate _ ';' (by decide) _ _ bytes_encodeStats rows

/-- A response fits the frame. -/
def Response.Fits (response : Response) : Prop := bytes response.encode ≤ maxFrameBytes

theorem Response.IsReply.fits {response : Response} (hreply : response.IsReply) :
    response.Fits := by
  have hmax : maxFrameBytes = 8192 := rfl
  have hpong : bytes "v1 pong\n" = 8 := rfl
  have hlabel : bytes "v1 error " + 1 = 10 := rfl
  have hcodes : ∀ code ∈ errorCodes, bytes code ≤ 22 := by decide
  rcases hreply with rfl | ⟨code, hcode, rfl⟩
  · change bytes "v1 pong\n" ≤ maxFrameBytes
    omega
  · have hsize := hcodes code hcode
    change bytes ("v1 error " ++ code ++ "\n") ≤ maxFrameBytes
    rw [bytes_frame hlabel]
    omega

/-- The fixed texts of the status and the network status. -/
def fixedTexts : List String :=
  ["open", "out", "in", "all", "blocked", "paused", "none", "nfqueue", "degraded", "attached",
    "installed", "missing", "incomplete", "interfire", "tcp_new_queue_4242", "tcp_new_drop"]

theorem bytes_le_of_mem_fixedTexts : ∀ text ∈ fixedTexts, bytes text ≤ 18 := by
  decide

theorem bytes_asStr_le (preference : TrafficPreference) : bytes preference.asStr ≤ 18 :=
  bytes_le_of_mem_fixedTexts _ (by cases preference <;> decide)

theorem digits_uint64_le (value : UInt64) : digits value.toNat ≤ 20 :=
  digits_le (by decide) (lt_of_lt_of_le value.toNat_lt (by decide))

theorem digits_uint32_le (value : UInt32) : digits value.toNat ≤ 10 :=
  digits_le (by decide) (lt_of_lt_of_le value.toNat_lt (by decide))

theorem bytes_label_le (effective : EffectiveTraffic) : bytes effective.label ≤ 34 := by
  have hmachine : bytes "machine:" = 8 := rfl
  have huser : bytes "user:" = 5 := rfl
  cases effective with
  | «open» => exact (bytes_le_of_mem_fixedTexts "open" (by decide)).trans (by decide)
  | machine preference =>
    have hpreference := bytes_asStr_le preference
    rw [EffectiveTraffic.label, bytes_append, hmachine]
    omega
  | user uid preference =>
    have hpreference := bytes_asStr_le preference
    have huid := digits_uint32_le uid
    have hdecimal : bytes (toString uid.toNat) = digits uid.toNat := bytes_decimal _
    rw [EffectiveTraffic.label, bytes_append, bytes_append, bytes_append, hdecimal, huser, bytes_colon]
    omega

/-- The status fits. Assumes: the observation is one of its two labels. -/
theorem ControlState.fits_status {state : ControlState} {attached : Bool}
    (hobservation : state.observation = observationLabel attached) (context : RequestContext) :
    (state.status context).Fits := by
  have henforcement : bytes state.enforcementLabel ≤ 18 := by
    refine bytes_le_of_mem_fixedTexts _ ?_
    unfold enforcementLabel bindLabel
    split_ifs
    · decide
    · split <;> decide
  have hobserved : bytes state.observation ≤ 18 := by
    refine bytes_le_of_mem_fixedTexts _ ?_
    rw [hobservation]
    cases attached <;> decide
  have htraffic : bytes state.traffic ≤ 18 := by
    refine bytes_le_of_mem_fixedTexts _ ?_
    unfold traffic
    split_ifs <;> decide
  have hmachine := bytes_asStr_le state.enforcement.machineTraffic
  have huser := bytes_asStr_le (state.enforcement.userPreference (context.peerUid.getD 0))
  have heffective : bytes (state.enforcement.trafficEffective (context.peerUid.getD 0)) ≤ 34 :=
    bytes_label_le _
  have hversion : digits ipcVersion.toNat = 1 := by decide
  have hpid := digits_uint32_le context.metrics.pid
  have hrss := digits_uint64_le context.metrics.rssKib
  have hcpu := digits_uint64_le context.metrics.cpuJiffies
  have hlabels : bytes "v1 status enforcement=" + bytes " observation=" + bytes " traffic=" +
      bytes " traffic_machine=" + bytes " traffic_user=" + bytes " traffic_effective=" +
      bytes " ipc_version=" + bytes " pid=" + bytes " rss_kib=" + bytes " cpu_jiffies=" +
      bytes "\n" ≤ 200 := by decide
  have hmax : maxFrameBytes = 8192 := rfl
  have hencode : (state.status context).encode =
      "v1 status enforcement=" ++ state.enforcementLabel ++ " observation=" ++ state.observation ++
        " traffic=" ++ state.traffic ++ " traffic_machine=" ++
        state.enforcement.machineTraffic.asStr ++ " traffic_user=" ++
        (state.enforcement.userPreference (context.peerUid.getD 0)).asStr ++
        " traffic_effective=" ++ state.enforcement.trafficEffective (context.peerUid.getD 0) ++
        " ipc_version=" ++ decimal ipcVersion.toNat ++ " pid=" ++
        decimal context.metrics.pid.toNat ++ " rss_kib=" ++ decimal context.metrics.rssKib.toNat ++
        " cpu_jiffies=" ++ decimal context.metrics.cpuJiffies.toNat ++ "\n" := rfl
  rw [Response.Fits, hencode, hmax]
  simp only [bytes_append, bytes_decimal, hversion]
  omega

/-- The network status fits. -/
theorem fits_network (listing : Option String) :
    (Response.network (.ofListing listing)).Fits := by
  have hrules : ["none", "tcp_new_queue_4242", "tcp_new_drop"] ⊆ fixedTexts := by decide
  obtain ⟨state, rule, hrule, hbody⟩ := NetworkStatusBody.exists_ofListing listing
  have hname := bytes_le_of_mem_fixedTexts rule (hrules hrule)
  have hstate : bytes state.asStr ≤ 18 :=
    bytes_le_of_mem_fixedTexts _ (by cases state <;> decide)
  have hqueue : digits (4242 : UInt16).toNat = 4 := by decide
  have htable : bytes "interfire" = 9 := rfl
  have hlabels : bytes "v1 network table=" + bytes " queue=" + bytes " state=" + bytes " rule=" +
      bytes "\n" ≤ 100 := by decide
  have hmax : maxFrameBytes = 8192 := rfl
  have hencode : (Response.network (.body state rule)).encode =
      "v1 network table=" ++ "interfire" ++ " queue=" ++ decimal (4242 : UInt16).toNat ++
        " state=" ++ state.asStr ++ " rule=" ++ rule ++ "\n" := rfl
  rw [hbody, Response.Fits, hencode, hmax]
  simp only [bytes_append, bytes_decimal, hqueue, htable]
  omega

/-- The bytes of the summary. Assumes: its version is that of the crate. -/
theorem bytes_statsSummary {body : StatsSummaryBody} (hbody : body.version = packageVersion) :
    bytes (Response.statsSummary body).encode =
      77 + digits body.connections.toNat + digits body.denied.toNat +
        digits body.uptimeSecs.toNat + digits body.rules.toNat + bytes body.git := by
  have hencode : (Response.statsSummary body).encode =
      "v1 stats-summary connections=" ++ decimal body.connections.toNat ++
        " denied=" ++ decimal body.denied.toNat ++
        " uptime_secs=" ++ decimal body.uptimeSecs.toNat ++ " rules=" ++
        decimal body.rules.toNat ++ " version=" ++ body.version ++ " git=" ++ body.git ++ "\n" := rfl
  have hversion : bytes packageVersion = 5 := rfl
  have hlabels : bytes "v1 stats-summary connections=" + bytes " denied=" +
      bytes " uptime_secs=" + bytes " rules=" + bytes " version=" + bytes " git=" +
      bytes "\n" = 72 := by decide
  rw [hencode, hbody]
  simp only [bytes_append, bytes_decimal, hversion]
  omega

/-- The confirmation of a subscription fits. Assumes: the request did. -/
theorem fits_subscribed {frame : List Char} {id : String} {since : UInt64}
    (hframe : Text.byteLength frame ≤ maxFrameBytes)
    (hparse : Request.parse frame = .ok (.auditSubscribe id since)) :
    (Response.subscribed id).Fits := by
  have hlabel : bytes "v1 subscribed " + 1 = 15 := rfl
  have hversion : Text.byteLength "v1".toList = 2 := rfl
  have hcommand : Text.byteLength "audit-subscribe".toList = 15 := rfl
  obtain ⟨fields, hwords, hid⟩ := Request.words_of_parse_auditSubscribe hparse
  have hsum := Text.sum_byteLength_words_le frame
  rw [hwords, List.map_cons, List.map_cons, List.sum_cons, List.sum_cons, hversion,
    hcommand] at hsum
  have hfield : Text.byteLength id.toList ≤
      (fields.map fun field ↦ Text.byteLength field.toList).sum :=
    List.single_le_sum (fun _ _ ↦ Nat.zero_le _) _ (List.mem_map_of_mem hid)
  change bytes ("v1 subscribed " ++ id ++ "\n") ≤ maxFrameBytes
  rw [bytes_frame hlabel, bytes]
  omega

/-! ### When a response fits -/

/-- The rows that a request asks for are small enough: their fields and separators, with the label and
the newline of the frame, are at most as many bytes as a frame may have. -/
def ServingDaemon.Fits (daemon : ServingDaemon) (context : RequestContext) : Request → Prop
  | .ruleList => ∀ rules, daemon.control.shared.rules.lock = some rules →
      10 + joinedBytes (rules.rules.map Rule.rowBytes) ≤ maxFrameBytes
  | .promptList => ∀ prompts, daemon.control.shared.prompts.lock = some prompts →
      12 + joinedBytes ((prompts.listPending context.expireNow).2.map
        (Prompt.rowBytes context.stampNow)) ≤ maxFrameBytes
  | .dnsList => ∀ dns, daemon.control.shared.dns.lock = some dns →
      8 + joinedBytes ((dns.listFresh context.expireNow context.stampNow).2.map dnsRowBytes) ≤
        maxFrameBytes
  | .auditTail limit => ∀ audit, daemon.control.shared.audit.lock = some audit →
      15 + joinedBytes ((daemon.log.tail limit).map BoundedLogRecord.rowBytes) ≤ maxFrameBytes
  | .processList => ∀ cache recent rules, daemon.control.shared.processCache.lock = some cache →
      daemon.control.shared.recent.lock = some recent →
      daemon.control.shared.rules.lock = some rules →
      14 + joinedBytes (cache.list.map (ProcessIdentity.rowBytes recent rules)) ≤ maxFrameBytes
  | .statsSummary => ∀ stats, daemon.control.shared.stats.lock = some stats →
      77 + digits stats.connections.toNat + digits stats.denied.toNat +
        digits context.uptimeSecs.toNat +
        digits (UInt64.ofNat
          ((daemon.control.shared.rules.lock.map (·.rules.length)).getD 0)).toNat +
        bytes daemon.git ≤ maxFrameBytes
  | .statsHosts => ∀ stats, daemon.control.shared.stats.lock = some stats →
      16 + joinedBytes (stats.hosts.snapshot.map statsRowBytes) ≤ maxFrameBytes
  | .statsProcs => ∀ stats, daemon.control.shared.stats.lock = some stats →
      16 + joinedBytes (stats.procs.snapshot.map statsRowBytes) ≤ maxFrameBytes
  | .statsAddrs => ∀ stats, daemon.control.shared.stats.lock = some stats →
      16 + joinedBytes (stats.addrs.snapshot.map statsRowBytes) ≤ maxFrameBytes
  | .statsPorts => ∀ stats, daemon.control.shared.stats.lock = some stats →
      16 + joinedBytes ((stats.ports.snapshot.map fun row ↦ (decimal row.1.toNat, row.2)).map
        statsRowBytes) ≤ maxFrameBytes
  | .statsUsers => ∀ stats, daemon.control.shared.stats.lock = some stats →
      16 + joinedBytes ((stats.users.snapshot.map fun row ↦ (decimal row.1.toNat, row.2)).map
        statsRowBytes) ≤ maxFrameBytes
  | _ => True

/-- A list fits exactly when its rows do. Assumes: the bytes of the label and the newline, and the
bytes of the rows. -/
theorem fits_list_iff {label payload : String} {size rows : ℕ} (hlabel : bytes label + 1 = size)
    (hrows : bytes payload = rows) :
    bytes (label ++ payload ++ "\n") ≤ maxFrameBytes ↔ size + rows ≤ maxFrameBytes := by
  rw [bytes_frame hlabel, hrows]

/-- What all answers have, the answer has. -/
theorem forall_mem_some {α : Type} {property : α → Prop} {answer : α} :
    (∀ response ∈ some answer, property response) ↔ property answer := by
  simp

namespace ServingDaemon

variable {toml : Toml} {daemon : ServingDaemon} {context : RequestContext} {listing : Option String}

/-- A list of the statistics fits exactly when its rows do. Assumes: the frame of the list, and the
bytes of its label and newline. -/
theorem fits_statsList_iff {label : String} {respond : String → Response}
    (hrespond : ∀ payload, (respond payload).encode = label ++ payload ++ "\n")
    (hlabel : bytes label + 1 = 16) (rows : StatsStore → List (String × StatsCounters)) :
    (daemon.control.statsList rows respond).Fits ↔
      ∀ stats, daemon.control.shared.stats.lock = some stats →
        16 + joinedBytes ((rows stats).map statsRowBytes) ≤ maxFrameBytes := by
  rw [ControlState.statsList]
  cases hlock : daemon.control.shared.stats.lock with
  | none => exact iff_of_true (Response.isReply_error (by decide)).fits (by simp)
  | some stats =>
    rw [Response.Fits, hrespond, fits_list_iff hlabel (bytes_statsRows (rows stats))]
    exact ⟨fun hfits stats hstats ↦ Option.some.inj hstats ▸ hfits, fun hfits ↦ hfits stats rfl⟩

/-- A request that shows nothing of the state is answered with a response that fits. Assumes: it
shows nothing. -/
theorem fits_of_not_shows {state : ControlState} {request : Request}
    (hnone : ∀ response, ¬ state.Shows context response request) :
    ∀ response ∈ (dispatch toml context state request).2, response.Fits := by
  intro response hresponse
  rcases ControlState.isReply_or_shows_of_dispatch hresponse with hreply | hshows
  · exact hreply.fits
  · exact absurd hshows (hnone response)

/-- A request is answered with a response that fits exactly when its rows do. Assumes: the
observation is one of its two labels. -/
theorem fits_dispatch_iff {attached : Bool}
    (hobservation : daemon.control.observation = observationLabel attached) (request : Request) :
    (∀ response ∈ (dispatch toml (daemon.context context listing) daemon.control request).2,
      response.Fits) ↔ daemon.Fits context request := by
  have hpoisoned : (Response.error "lock_poisoned").Fits :=
    (Response.isReply_error (by decide)).fits
  cases request with
  | status =>
    exact iff_of_true (forall_mem_some.mpr (ControlState.fits_status hobservation _)) trivial
  | networkStatus => exact iff_of_true (forall_mem_some.mpr (fits_network listing)) trivial
  | ruleList =>
    refine forall_mem_some.trans ?_
    rw [ControlState.ruleList, Fits]
    cases hlock : daemon.control.shared.rules.lock with
    | none => exact iff_of_true hpoisoned (by simp)
    | some rules =>
      have hlabel : bytes "v1 rules " + 1 = 10 := rfl
      refine (fits_list_iff hlabel (bytes_ruleRows rules.rules)).trans ?_
      exact ⟨fun hfits rules hrules ↦ Option.some.inj hrules ▸ hfits, fun hfits ↦ hfits rules rfl⟩
  | promptList =>
    refine forall_mem_some.trans ?_
    have hstore : daemon.control.policyStore.prompts = daemon.control.shared.prompts := rfl
    rw [ControlState.promptList, PolicyStore.promptList, hstore, Fits]
    cases hlock : daemon.control.shared.prompts.lock with
    | none => exact iff_of_true hpoisoned (by simp)
    | some prompts =>
      have hlabel : bytes "v1 prompts " + 1 = 12 := rfl
      refine (fits_list_iff hlabel (bytes_encodePrompts _ _)).trans ?_
      exact ⟨fun hfits prompts hprompts ↦ Option.some.inj hprompts ▸ hfits,
        fun hfits ↦ hfits prompts rfl⟩
  | dnsList =>
    refine forall_mem_some.trans ?_
    rw [ControlState.dnsList, Fits]
    cases hlock : daemon.control.shared.dns.lock with
    | none => exact iff_of_true hpoisoned (by simp)
    | some dns =>
      have hlabel : bytes "v1 dns " + 1 = 8 := rfl
      refine (fits_list_iff hlabel (bytes_dnsRows _)).trans ?_
      exact ⟨fun hfits dns hdns ↦ Option.some.inj hdns ▸ hfits, fun hfits ↦ hfits dns rfl⟩
  | auditTail limit =>
    refine forall_mem_some.trans ?_
    rw [ControlState.auditTail, Fits]
    cases hlock : daemon.control.shared.audit.lock with
    | none => exact iff_of_true hpoisoned (by simp)
    | some audit =>
      have hlabel : bytes "v1 audit-tail " + 1 = 15 := rfl
      refine (fits_list_iff hlabel (bytes_encodeTail daemon.log limit)).trans ?_
      exact ⟨fun hfits _ _ ↦ hfits, fun hfits ↦ hfits audit rfl⟩
  | processList =>
    refine forall_mem_some.trans ?_
    rw [ControlState.processList, Fits]
    cases hcache : daemon.control.shared.processCache.lock with
    | none => exact iff_of_true hpoisoned (by simp)
    | some cache =>
      cases hrecent : daemon.control.shared.recent.lock with
      | none => exact iff_of_true hpoisoned (by simp)
      | some recent =>
        cases hrules : daemon.control.shared.rules.lock with
        | none => exact iff_of_true hpoisoned (by simp)
        | some rules =>
          have hlabel : bytes "v1 processes " + 1 = 14 := rfl
          refine (fits_list_iff hlabel (bytes_processRows recent rules cache.list)).trans ?_
          constructor
          · rintro hfits _ _ _ ⟨⟩ ⟨⟩ ⟨⟩
            exact hfits
          · exact fun hfits ↦ hfits cache recent rules rfl rfl rfl
  | statsSummary =>
    refine forall_mem_some.trans ?_
    rw [ControlState.statsSummary, Fits]
    cases hlock : daemon.control.shared.stats.lock with
    | none => exact iff_of_true hpoisoned (by simp)
    | some stats =>
      rw [Response.Fits, bytes_statsSummary rfl]
      exact ⟨fun hfits stats hstats ↦ Option.some.inj hstats ▸ hfits, fun hfits ↦ hfits stats rfl⟩
  | statsHosts =>
    exact forall_mem_some.trans (fits_statsList_iff (fun _ ↦ rfl) rfl _)
  | statsProcs =>
    exact forall_mem_some.trans (fits_statsList_iff (fun _ ↦ rfl) rfl _)
  | statsAddrs =>
    exact forall_mem_some.trans (fits_statsList_iff (fun _ ↦ rfl) rfl _)
  | statsPorts =>
    exact forall_mem_some.trans (fits_statsList_iff (fun _ ↦ rfl) rfl _)
  | statsUsers =>
    exact forall_mem_some.trans (fits_statsList_iff (fun _ ↦ rfl) rfl _)
  | _ => exact iff_of_true (fits_of_not_shows fun _ ↦ id) trivial

/-- A line is answered with a response that fits exactly when the rows that it asks for do. Assumes:
the observation is one of its two labels. -/
theorem fits_handle_iff {attached : Bool}
    (hobservation : daemon.control.observation = observationLabel attached) (frame : List Char) :
    (∀ response ∈ (daemon.handle toml context listing frame).2, response.Fits) ↔
      ∀ request, Text.byteLength frame ≤ maxFrameBytes → Request.parse frame = .ok request →
        daemon.Fits context request := by
  unfold handle
  split_ifs with hlong
  · refine iff_of_true ?_ fun request hshort ↦ absurd hlong (Nat.not_lt.mpr hshort)
    exact forall_mem_some.mpr (Response.isReply_error (by decide)).fits
  have hshort : Text.byteLength frame ≤ maxFrameBytes := Nat.not_lt.mp hlong
  split
  · next error hparse =>
    refine iff_of_true ?_ fun request _ hrequest ↦ ?_
    · exact forall_mem_some.mpr (Response.isReply_error (by decide)).fits
    · rw [hparse] at hrequest
      cases hrequest
  · next id since hparse =>
    refine iff_of_true (forall_mem_some.mpr ?_) fun request _ hrequest ↦ ?_
    · unfold auditSubscribe
      split_ifs
      · split
        · exact (Response.isReply_error (by decide)).fits
        · exact fits_subscribed hshort hparse
      · exact (Response.isReply_error (by decide)).fits
    · rw [hparse] at hrequest
      obtain rfl := Except.ok.inj hrequest
      trivial
  · next request _ hparse =>
    refine (fits_dispatch_iff hobservation request).trans ⟨fun hfits other _ hother ↦ ?_,
      fun hfits ↦ hfits request hshort hparse⟩
    rw [hparse] at hother
    exact Except.ok.inj hother ▸ hfits

end ServingDaemon

/-! ### Runs -/

namespace ServingDaemon

/-- The response of a step. -/
def answer (toml : Toml) (daemon : ServingDaemon) : ServingOp → Option Response
  | .serve context listing frame => (daemon.handle toml context listing frame).2
  | _ => none

/-- The responses of a run. -/
def answers (toml : Toml) (daemon : ServingDaemon) : List ServingOp → List Response
  | [] => []
  | op :: rest => (daemon.answer toml op).toList ++ (daemon.step toml op).answers toml rest

/-- A step that serves a request does so in a state whose rows are small enough for it. -/
def FitsStep (daemon : ServingDaemon) : ServingOp → Prop
  | .serve context _ frame => ∀ request, Text.byteLength frame ≤ maxFrameBytes →
      Request.parse frame = .ok request → daemon.Fits context request
  | _ => True

/-- Every step of a run is so. -/
def FitsRun (toml : Toml) (daemon : ServingDaemon) : List ServingOp → Prop
  | [] => True
  | op :: rest => daemon.FitsStep op ∧ (daemon.step toml op).FitsRun toml rest

variable {toml : Toml} {daemon : ServingDaemon}

/-- The observation is one of its two labels. -/
def Observes (daemon : ServingDaemon) : Prop :=
  ∃ attached, daemon.control.observation = observationLabel attached

theorem Observes.step (hobserves : daemon.Observes) (op : ServingOp) :
    (daemon.step toml op).Observes := by
  obtain ⟨attached, hlabel⟩ := hobserves
  have hkept : ∀ index act, (∀ decision, (act decision).control.observation =
      daemon.control.observation) →
        (daemon.withDecision index act).control.observation = observationLabel attached := by
    intro index act hact
    unfold withDecision
    split
    · exact hlabel
    · rw [hact, hlabel]
  cases op with
  | decide clock reads event =>
    refine ⟨attached, ?_⟩
    rw [ServingDaemon.step, ServingDaemon.decide]
    split <;> exact hlabel
  | keep index expireNow stampNow => exact ⟨attached, hkept index _ fun _ ↦ rfl⟩
  | count index => exact ⟨attached, hkept index _ fun _ ↦ rfl⟩
  | record index file =>
    refine ⟨attached, hkept index _ fun decision ↦ ?_⟩
    unfold ServingDaemon.record
    split <;> rfl
  | serve context listing frame =>
    refine ⟨attached, ?_⟩
    rw [ServingDaemon.step, handle]
    split_ifs
    · exact hlabel
    split
    · exact hlabel
    · exact hlabel
    · exact (ControlState.observation_dispatch _ _ _ _).trans hlabel
  | others pending enforcement attached => exact ⟨attached, rfl⟩

theorem fits_answer_iff (hobserves : daemon.Observes) (op : ServingOp) :
    (∀ response ∈ daemon.answer toml op, response.Fits) ↔ daemon.FitsStep op := by
  obtain ⟨attached, hlabel⟩ := hobserves
  cases op with
  | serve context listing frame => exact fits_handle_iff hlabel frame
  | _ => exact iff_of_true nofun trivial

/-- The responses of a run fit exactly when every request meets rows that do. Assumes: the
observation is one of its two labels. -/
theorem fits_answers_iff (hobserves : daemon.Observes) (ops : List ServingOp) :
    (∀ response ∈ daemon.answers toml ops, response.Fits) ↔ daemon.FitsRun toml ops := by
  induction ops generalizing daemon with
  | nil => exact iff_of_true nofun trivial
  | cons op rest ih =>
    rw [answers, FitsRun, List.forall_mem_append, ih (hobserves.step op)]
    simp only [Option.mem_toList]
    exact and_congr_left' (fits_answer_iff hobserves op)

end ServingDaemon

/-- The frame limit. In every run of a daemon all responses fit the frame exactly when every request
that is read meets a state in which the rows that it asks for fit. -/
theorem responses_fit_iff (toml : Toml) (store : PolicyStore) (log : AuditLog) (attached : Bool)
    (git : String) (ops : List ServingOp) :
    (∀ response ∈ (ServingDaemon.start store log attached git).answers toml ops,
      bytes response.encode ≤ maxFrameBytes) ↔
      (ServingDaemon.start store log attached git).FitsRun toml ops :=
  ServingDaemon.fits_answers_iff ⟨attached, rfl⟩ ops

/-! ### Two rules -/

/-- A path of some names of some letters. -/
def longPath (names letters : ℕ) : String :=
  String.ofList (List.replicate names ('/' :: List.replicate letters 'a')).flatten

/-- Two rules that allow an executable two TCP ports. -/
def twoRules (executable : String) : RuleSet :=
  ⟨[.forPort 1 executable 443 .allow .permanent, .forPort 2 executable 853 .allow .permanent]⟩

/-- The text of the document with these rules. -/
def twoText (executable : String) : String :=
  "schema_version = 1\n\n[[rules]]\nid = 1\nexecutable = \"" ++ executable ++
    "\"\nprotocol = \"tcp\"\ndirection = \"outbound\"\nport = 443\nverdict = \"allow\"\n" ++
    "scope = \"permanent\"\n\n[[rules]]\nid = 2\nexecutable = \"" ++ executable ++
    "\"\nprotocol = \"tcp\"\ndirection = \"outbound\"\nport = 853\nverdict = \"allow\"\n" ++
    "scope = \"permanent\"\n"

/-- The library at the document with these rules. -/
def twoToml (executable : String) : Toml :=
  Toml.ofTable [(RulesStore.documentOf (twoRules executable), twoText executable)]

/-- A daemon that has loaded these rules. -/
def twoStore (executable : String) : PolicyStore :=
  { rules := Mutex.new (twoRules executable)
    prompts := Mutex.new PromptQueue.withDefaults
    directory := ⟨some (twoText executable), none⟩ }

theorem bytes_longPath (names letters : ℕ) :
    bytes (longPath names letters) = names * (1 + letters) := by
  have hslash : Char.utf8Size '/' = 1 := by decide
  have hletter : Char.utf8Size 'a' = 1 := by decide
  simp [bytes, longPath, Text.byteLength, List.map_flatten, List.sum_flatten, hslash, hletter]

theorem isAbsolute_longPath (names letters : ℕ) :
    RuleSet.isAbsolute (longPath (names + 1) letters) = true := by
  simp [RuleSet.isAbsolute, longPath, List.replicate_succ]

/-- The daemon loads the two rules. Assumes: their executable is absolute. -/
theorem start_twoToml {executable : String} (habsolute : RuleSet.isAbsolute executable = true) :
    PolicyStore.start (twoToml executable) ⟨some (twoText executable), none⟩ =
      some (twoStore executable) := by
  have hread : (twoToml executable).fromStr (twoText executable) =
      .ok (RulesStore.documentOf (twoRules executable)) := by
    simp [twoToml, Toml.ofTable]
  have hvalid : (twoRules executable).Valid := by
    refine ⟨show [(1 : UInt64), 2].Nodup by decide, fun rule hrule ↦ ?_⟩
    rcases List.mem_pair.mp hrule with rfl | rfl
    · exact habsolute
    · exact habsolute
  have hload : RulesStore.loadable (twoToml executable) ⟨some (twoText executable), none⟩ =
      .ok (twoRules executable) :=
    RulesStore.load_of_document hvalid hread
  rw [PolicyStore.start, hload]
  rfl

/-- The bytes of the list of the two rules. -/
theorem joinedBytes_twoRules (executable : String) :
    joinedBytes ((twoRules executable).rules.map Rule.rowBytes) = 25 + 2 * bytes executable := by
  have hone : digits (1 : UInt64).toNat = 1 := by decide
  have htwo : digits (2 : UInt64).toNat = 1 := by decide
  have hfirst : digits (443 : UInt16).toNat = 3 := by decide
  have hsecond : digits (853 : UInt16).toNat = 3 := by decide
  simp only [joinedBytes, twoRules, List.map_cons, List.map_nil, List.sum_cons, List.sum_nil,
    Rule.rowBytes, Rule.forPort, Option.getD_some, Verdict.nameBytes, hone, htwo, hfirst, hsecond]
  omega

/-- A daemon with the two rules answers a request for its rules. -/
theorem answers_twoRules (executable : String) :
    (ServingDaemon.start (twoStore executable) (.openLog none 1000 10 (by decide)) true
      "unknown").answers (twoToml executable) [.serve .ordinary none "v1 rule-list\n".toList] =
      [.rules (",".intercalate ((twoRules executable).rules.map encodeRule))] := by
  have hparse : Request.parse "v1 rule-list\n".toList = .ok .ruleList := by decide
  have hshort : ¬ maxFrameBytes < Text.byteLength "v1 rule-list\n".toList := by decide
  rw [ServingDaemon.answers, ServingDaemon.answer, ServingDaemon.handle, if_neg hshort, hparse]
  rfl

/-- Two rules for a path of 4080 bytes, as a document may hold them, are listed in 8195 bytes. -/
theorem two_rules_do_not_fit :
    PolicyStore.start (twoToml (longPath 16 254)) ⟨some (twoText (longPath 16 254)), none⟩ =
        some (twoStore (longPath 16 254)) ∧
      ∃ response ∈ (ServingDaemon.start (twoStore (longPath 16 254))
        (.openLog none 1000 10 (by decide)) true "unknown").answers (twoToml (longPath 16 254))
          [.serve .ordinary none "v1 rule-list\n".toList],
        bytes response.encode = 8195 ∧ ¬ bytes response.encode ≤ maxFrameBytes := by
  refine ⟨start_twoToml (isAbsolute_longPath 15 254), ?_⟩
  rw [answers_twoRules]
  refine ⟨_, List.mem_singleton_self _, ?_⟩
  have hlabel : bytes "v1 rules " + 1 = 10 := rfl
  have hsize : bytes (Response.rules (",".intercalate ((twoRules (longPath 16 254)).rules.map
      encodeRule))).encode = 8195 := by
    refine (bytes_frame hlabel _).trans ?_
    rw [bytes_ruleRows, joinedBytes_twoRules, bytes_longPath]
  rw [hsize]
  exact ⟨rfl, by decide⟩

end InterFire
