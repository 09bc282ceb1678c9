import InterFire.Proto

/-!
# Reading a request

`Request::parse` of `crates/interfire-proto`: the words of a frame are a version, a command and its
fields, and nothing is quoted. `isWord_of_parse` is what follows for a request with texts in it:
whatever the frame, they are words. `parse_requestLine` is the other direction, a frame of words is
read as these words.
-/

set_option autoImplicit false
set_option relaxedAutoImplicit false

namespace InterFire

/-- The records that a client is shown unless it asks for another number. -/
def maxLogRecordsPerSubscriber : ℕ := 2000

namespace Request

/-- A number in a field. -/
def parseNumber (bound : ℕ) (field : String) : Option ℕ := Text.parseUnsigned bound field.toList

/-- What follows a prefix. -/
def stripPrefix (start field : String) : Option String :=
  (field.toList.dropPrefix? start.toList).map String.ofList

/-- What was put before a text is stripped again. -/
theorem stripPrefix_append (start rest : String) :
    stripPrefix start (start ++ rest) = some rest := by
  have hdrop : (start ++ rest).toList.dropPrefix? start.toList = some rest.toList := by
    rw [String.toList_append]
    exact List.dropPrefix?_append_of_beq _ (by simp)
  rw [stripPrefix, hdrop, Option.map_some, String.ofList_toList]

/-- A command without fields. -/
def parseBare (request : Request) (fields : List String) : Except ProtocolError Request :=
  if fields = [] then .ok request else .error .malformed

/-- The scope and the direction of the fields, the last of each. No result is a field that is
neither. -/
def trafficFields (fields : List String) : Option (Option String × Option String) :=
  fields.foldlM (fun found field ↦
    match stripPrefix "scope=" field with
    | some scope => some (some scope, found.2)
    | none => (stripPrefix "direction=" field).map fun direction ↦ (found.1, some direction))
    (none, none)

def parseTrafficBlock (fields : List String) : Except ProtocolError Request :=
  match trafficFields fields with
  | some (some scope, some direction) =>
    if scope ∈ ["user", "machine"] ∧ direction ∈ ["out", "in", "all"] then
      .ok (.trafficBlock scope direction)
    else .error .malformed
  | _ => .error .malformed

/-- The scope of the fields, the last of them. No result is another field. -/
def scopeField (fields : List String) : Option (Option String) :=
  fields.foldlM (fun _ field ↦ (stripPrefix "scope=" field).map some) none

def parseTrafficUnblock (fields : List String) : Except ProtocolError Request :=
  match scopeField fields with
  | some (some scope) =>
    if scope ∈ ["user", "machine"] then .ok (.trafficUnblock scope) else .error .malformed
  | _ => .error .malformed

def parseRuleDelete : List String → Except ProtocolError Request
  | [id] =>
    match parseNumber (2 ^ 64) id with
    | some id => .ok (.ruleDelete (UInt64.ofNat id))
    | none => .error .malformed
  | _ => .error .malformed

def parseRuleAdd : List String → Except ProtocolError Request
  | [id, executable, verdict, port] =>
    match parseNumber (2 ^ 64) id, parseNumber (2 ^ 16) port with
    | some id, some port => .ok (.ruleAdd (UInt64.ofNat id) executable verdict (UInt16.ofNat port))
    | _, _ => .error .malformed
  | _ => .error .malformed

def parsePromptAnswer : List String → Except ProtocolError Request
  | [id, verdict, scope] =>
    match parseNumber (2 ^ 64) id with
    | some id => .ok (.promptAnswer (UInt64.ofNat id) verdict scope)
    | none => .error .malformed
  | _ => .error .malformed

def parseDnsNote : List String → Except ProtocolError Request
  | [hostname, ipv4] => .ok (.dnsNote hostname ipv4 none)
  | [hostname, ipv4, ttlSecs] =>
    match parseNumber (2 ^ 64) ttlSecs with
    | some ttlSecs => .ok (.dnsNote hostname ipv4 (some (UInt64.ofNat ttlSecs)))
    | none => .error .malformed
  | _ => .error .malformed

def parseAuditTail : List String → Except ProtocolError Request
  | [] => .ok (.auditTail maxLogRecordsPerSubscriber)
  | [limit] =>
    match parseNumber (2 ^ 64) limit with
    | some limit => .ok (.auditTail limit)
    | none => .error .malformed
  | _ => .error .malformed

/-- The number of a field `since=`. -/
def parseSince (field : String) : Option ℕ :=
  (stripPrefix "since=" field).bind (parseNumber (2 ^ 64))

def parseAuditSubscribe : List String → Except ProtocolError Request
  | [id] => .ok (.auditSubscribe id 0)
  | [id, since] =>
    match parseSince since with
    | some since => .ok (.auditSubscribe id (UInt64.ofNat since))
    | none => .error .malformed
  | _ => .error .malformed

/-- Read the fields of a command. -/
def parseFields (command : String) (fields : List String) : Except ProtocolError Request :=
  match command with
  | "ping" => parseBare .ping fields
  | "status" => parseBare .status fields
  | "rule-list" => parseBare .ruleList fields
  | "rule-delete" => parseRuleDelete fields
  | "rule-add" => parseRuleAdd fields
  | "prompt-list" => parseBare .promptList fields
  | "prompt-answer" => parsePromptAnswer fields
  | "dns-list" => parseBare .dnsList fields
  | "dns-note" => parseDnsNote fields
  | "audit-tail" => parseAuditTail fields
  | "audit-subscribe" => parseAuditSubscribe fields
  | "process-list" => parseBare .processList fields
  | "network-status" => parseBare .networkStatus fields
  | "network-install" => parseBare .networkInstall fields
  | "network-remove" => parseBare .networkRemove fields
  | "pause" => parseBare .pause fields
  | "resume" => parseBare .resume fields
  | "traffic-block" => parseTrafficBlock fields
  | "traffic-unblock" => parseTrafficUnblock fields
  | "stats-summary" => parseBare .statsSummary fields
  | "stats-hosts" => parseBare .statsHosts fields
  | "stats-procs" => parseBare .statsProcs fields
  | "stats-addrs" => parseBare .statsAddrs fields
  | "stats-ports" => parseBare .statsPorts fields
  | "stats-users" => parseBare .statsUsers fields
  | _ => .error .malformed

/-- Read the words of a frame. -/
def parseWords : List String → Except ProtocolError Request
  | [] => .error .malformed
  | version :: fields =>
    if version ≠ "v1" then .error .unsupportedVersion
    else
      match fields with
      | [] => .error .malformed
      | command :: fields => parseFields command fields

/-- Read a frame. -/
def parse (frame : List Char) : Except ProtocolError Request := parseWords (Text.words frame)

/-! ### The words of a frame -/

/-- The words of an accepted frame. -/
theorem words_of_parse {frame : List Char} {request : Request} (hparse : parse frame = .ok request) :
    ∃ command fields, Text.words frame = "v1" :: command :: fields ∧
      parseFields command fields = .ok request := by
  unfold parse parseWords at hparse
  split at hparse
  · cases hparse
  · next version rest hwords =>
    split_ifs at hparse with hversion
    split at hparse
    · cases hparse
    · next command fields =>
      obtain rfl := not_not.mp hversion
      exact ⟨command, fields, hwords, hparse⟩

theorem parse_of_words {frame : List Char} {command : String} {fields : List String}
    (hwords : Text.words frame = "v1" :: command :: fields) :
    parse frame = parseFields command fields := by
  rw [parse, hwords]
  simp [parseWords]

/-! ### The texts of a request -/

/-- The fields of a request that are kept as they are read. -/
def texts : Request → List String
  | ruleAdd _ executable verdict _ => [executable, verdict]
  | promptAnswer _ verdict scope => [verdict, scope]
  | dnsNote hostname ipv4 _ => [hostname, ipv4]
  | auditSubscribe id _ => [id]
  | _ => []

section Texts

variable {fields : List String} {request : Request}

/-- A command without fields has no texts. Assumes: it is read, and its request has none. -/
theorem texts_subset_of_parseBare {bare : Request} (hbare : bare.texts = [])
    (hparse : parseBare bare fields = .ok request) : request.texts ⊆ fields := by
  unfold parseBare at hparse
  split_ifs at hparse
  obtain rfl := Except.ok.inj hparse
  rw [hbare]
  exact List.nil_subset fields

theorem texts_subset_of_parseRuleAdd (hparse : parseRuleAdd fields = .ok request) :
    request.texts ⊆ fields := by
  unfold parseRuleAdd at hparse
  split at hparse
  · split at hparse
    · obtain rfl := Except.ok.inj hparse
      simp [texts]
    · cases hparse
  · cases hparse

theorem texts_subset_of_parsePromptAnswer (hparse : parsePromptAnswer fields = .ok request) :
    request.texts ⊆ fields := by
  unfold parsePromptAnswer at hparse
  split at hparse
  · split at hparse
    · obtain rfl := Except.ok.inj hparse
      simp [texts]
    · cases hparse
  · cases hparse

theorem texts_subset_of_parseDnsNote (hparse : parseDnsNote fields = .ok request) :
    request.texts ⊆ fields := by
  unfold parseDnsNote at hparse
  split at hparse
  · obtain rfl := Except.ok.inj hparse
    simp [texts]
  · split at hparse
    · obtain rfl := Except.ok.inj hparse
      simp [texts]
    · cases hparse
  · cases hparse

theorem texts_subset_of_parseAuditSubscribe (hparse : parseAuditSubscribe fields = .ok request) :
    request.texts ⊆ fields := by
  unfold parseAuditSubscribe at hparse
  split at hparse
  · obtain rfl := Except.ok.inj hparse
    simp [texts]
  · split at hparse
    · obtain rfl := Except.ok.inj hparse
      simp [texts]
    · cases hparse
  · cases hparse

theorem texts_of_parseRuleDelete (hparse : parseRuleDelete fields = .ok request) :
    request.texts = [] := by
  unfold parseRuleDelete at hparse
  repeat' split at hparse
  all_goals cases hparse
  rfl

theorem texts_of_parseAuditTail (hparse : parseAuditTail fields = .ok request) :
    request.texts = [] := by
  unfold parseAuditTail at hparse
  repeat' split at hparse
  all_goals cases hparse
  all_goals rfl

theorem texts_of_parseTrafficBlock (hparse : parseTrafficBlock fields = .ok request) :
    request.texts = [] := by
  unfold parseTrafficBlock at hparse
  repeat' split at hparse
  all_goals cases hparse
  rfl

theorem texts_of_parseTrafficUnblock (hparse : parseTrafficUnblock fields = .ok request) :
    request.texts = [] := by
  unfold parseTrafficUnblock at hparse
  repeat' split at hparse
  all_goals cases hparse
  rfl

end Texts

/-- The texts of a request are fields of its command. Assumes: the request is read. -/
theorem texts_subset_of_parseFields {command : String} {fields : List String} {request : Request}
    (hparse : parseFields command fields = .ok request) : request.texts ⊆ fields := by
  have hnone (htexts : request.texts = []) : request.texts ⊆ fields := by
    rw [htexts]
    exact List.nil_subset fields
  unfold parseFields at hparse
  split at hparse
  case h_4 => exact hnone (texts_of_parseRuleDelete hparse)
  case h_5 => exact texts_subset_of_parseRuleAdd hparse
  case h_7 => exact texts_subset_of_parsePromptAnswer hparse
  case h_9 => exact texts_subset_of_parseDnsNote hparse
  case h_10 => exact hnone (texts_of_parseAuditTail hparse)
  case h_11 => exact texts_subset_of_parseAuditSubscribe hparse
  case h_18 => exact hnone (texts_of_parseTrafficBlock hparse)
  case h_19 => exact hnone (texts_of_parseTrafficUnblock hparse)
  case h_26 => cases hparse
  all_goals exact texts_subset_of_parseBare rfl hparse

/-- The texts of a request are words. Assumes: the request is read. -/
theorem isWord_of_parse {frame : List Char} {request : Request}
    (hparse : parse frame = .ok request) : ∀ text ∈ request.texts, Text.IsWord text := by
  intro text htext
  obtain ⟨command, fields, hwords, hfields⟩ := words_of_parse hparse
  have hmem : text ∈ Text.words frame := by
    rw [hwords]
    exact .tail "v1" (.tail command (texts_subset_of_parseFields hfields htext))
  exact Text.isWord_of_mem_words hmem

/-- The command of a request for a stream. Assumes: the fields are read as one. -/
theorem command_of_parse_auditSubscribe {command : String} {fields : List String} {id : String}
    {since : UInt64} (hparse : parseFields command fields = .ok (.auditSubscribe id since)) :
    command = "audit-subscribe" := by
  unfold parseFields at hparse
  split at hparse
  case h_4 => cases texts_of_parseRuleDelete hparse
  case h_5 =>
    unfold parseRuleAdd at hparse
    repeat' split at hparse
    all_goals cases hparse
  case h_7 =>
    unfold parsePromptAnswer at hparse
    repeat' split at hparse
    all_goals cases hparse
  case h_9 =>
    unfold parseDnsNote at hparse
    repeat' split at hparse
    all_goals cases hparse
  case h_10 => cases texts_of_parseAuditTail hparse
  case h_11 => rfl
  case h_18 => cases texts_of_parseTrafficBlock hparse
  case h_19 => cases texts_of_parseTrafficUnblock hparse
  case h_26 => cases hparse
  all_goals
    unfold parseBare at hparse
    split_ifs at hparse
    cases hparse

/-- The words of a request for a stream. Assumes: the request is read as one. -/
theorem words_of_parse_auditSubscribe {frame : List Char} {id : String} {since : UInt64}
    (hparse : parse frame = .ok (.auditSubscribe id since)) :
    ∃ fields, Text.words frame = "v1" :: "audit-subscribe" :: fields ∧ id ∈ fields := by
  obtain ⟨command, fields, hwords, hfields⟩ := words_of_parse hparse
  obtain rfl := command_of_parse_auditSubscribe hfields
  exact ⟨fields, hwords, texts_subset_of_parseFields hfields List.mem_cons_self⟩

/-! ### Frames of words -/

/-- The frame of a command and its fields. -/
def requestLine (line : List String) : List Char :=
  Text.join ' ' (("v1" :: line).map String.toList) ++ ['\n']

/-- A frame of words is read as these words. Assumes: they are words. -/
theorem parse_requestLine {command : String} {fields : List String}
    (hwords : ∀ word ∈ command :: fields, Text.IsWord word) :
    parse (requestLine (command :: fields)) = parseFields command fields := by
  have hall : ∀ word ∈ "v1" :: command :: fields, Text.IsWord word := by
    intro word hword
    rcases List.mem_cons.mp hword with rfl | hrest
    · decide
    · exact hwords word hrest
  have hline : Text.words (requestLine (command :: fields)) = "v1" :: command :: fields := by
    rw [requestLine, Text.words_append _ _ (by decide), Text.words_join_of_isWord hall,
      Text.words_nil, List.append_nil]
  exact parse_of_words hline

/-- A number that is read is a word. Assumes: it is read. -/
theorem isWord_of_parseNumber {bound number : ℕ} {field : String}
    (hparse : parseNumber bound field = some number) : Text.IsWord field := by
  refine ⟨fun hnil ↦ ?_, fun character hmem ↦ ?_⟩
  · rw [parseNumber, hnil] at hparse
    cases hparse
  · rcases Text.isDigit_of_parseUnsigned hparse character hmem with rfl | hdigit
    · decide
    · exact Text.not_isWhitespace_of_isDigit hdigit

end Request

end InterFire
