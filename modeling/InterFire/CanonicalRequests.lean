import InterFire.ClientRequests

/-!
# One meaning per frame

The commands of the protocol are read in four ways: without fields, by position, by position with
an optional last field, and as a sequence of `key=value` fields. `canonicalFrame` writes every
request in one way, `parseFields_canonical` reads it back, and `allowed_of_parseFields` says that
only such requests are read at all. `parseFields_append` follows the four ways of reading for a frame
with one more token: it is refused, unless the token is a field that the command can still take.

`parse_one_meaning` puts this together for frames.
-/

set_option autoImplicit false
set_option relaxedAutoImplicit false

namespace InterFire

namespace Request

/-! ### The canonical frame -/

/-- The command word of a request. -/
def command : Request → String
  | .ping => "ping"
  | .status => "status"
  | .ruleList => "rule-list"
  | .ruleAdd .. => "rule-add"
  | .ruleDelete _ => "rule-delete"
  | .promptList => "prompt-list"
  | .promptAnswer .. => "prompt-answer"
  | .dnsList => "dns-list"
  | .dnsNote .. => "dns-note"
  | .auditTail _ => "audit-tail"
  | .auditSubscribe .. => "audit-subscribe"
  | .processList => "process-list"
  | .networkStatus => "network-status"
  | .networkInstall => "network-install"
  | .networkRemove => "network-remove"
  | .pause => "pause"
  | .resume => "resume"
  | .trafficBlock .. => "traffic-block"
  | .trafficUnblock _ => "traffic-unblock"
  | .statsSummary => "stats-summary"
  | .statsHosts => "stats-hosts"
  | .statsProcs => "stats-procs"
  | .statsAddrs => "stats-addrs"
  | .statsPorts => "stats-ports"
  | .statsUsers => "stats-users"

/-- The fields of a request, in their order. -/
def fields : Request → List String
  | .ruleAdd id executable verdict port =>
    [decimal id.toNat, executable, verdict, decimal port.toNat]
  | .ruleDelete id => [decimal id.toNat]
  | .promptAnswer id verdict scope => [decimal id.toNat, verdict, scope]
  | .dnsNote hostname ipv4 ttlSecs =>
    [hostname, ipv4] ++ (ttlSecs.map fun secs ↦ decimal secs.toNat).toList
  | .auditTail limit => [decimal limit]
  | .auditSubscribe id since => [id, "since=" ++ decimal since.toNat]
  | .trafficBlock scope direction => ["scope=" ++ scope, "direction=" ++ direction]
  | .trafficUnblock scope => ["scope=" ++ scope]
  | _ => []

/-- The version, the command and the fields, separated by single spaces. -/
def canonicalFrame (request : Request) : List Char :=
  Text.join ' ' (("v1" :: request.command :: request.fields).map String.toList)

/-- The scope and the direction are allowed ones, and the limit is a machine number. -/
def Allowed : Request → Prop
  | .trafficBlock scope direction =>
    scope ∈ ["user", "machine"] ∧ direction ∈ ["out", "in", "all"]
  | .trafficUnblock scope => scope ∈ ["user", "machine"]
  | .auditTail limit => limit < 2 ^ 64
  | _ => True

/-- The texts of the request are not empty and hold no white space, and its other fields are
allowed. -/
structure WellFormed (request : Request) : Prop where
  words : ∀ text ∈ request.texts, Text.IsWord text
  allowed : request.Allowed

theorem parseNumber_uint64 (value : UInt64) :
    parseNumber (2 ^ 64) (decimal value.toNat) = some value.toNat :=
  parseNumber_decimal value.toNat_lt

theorem parseNumber_uint16 (value : UInt16) :
    parseNumber (2 ^ 16) (decimal value.toNat) = some value.toNat :=
  parseNumber_decimal value.toNat_lt

/-- The fields of a request are read as the request. Assumes: they are allowed. -/
theorem parseFields_canonical {request : Request} (hallowed : request.Allowed) :
    parseFields request.command request.fields = .ok request := by
  cases request with
  | ruleAdd id executable verdict port =>
    change parseRuleAdd [decimal id.toNat, executable, verdict, decimal port.toNat] = _
    simp only [parseRuleAdd, parseNumber_uint64, parseNumber_uint16, UInt64.ofNat_toNat,
      UInt16.ofNat_toNat]
  | ruleDelete id =>
    change parseRuleDelete [decimal id.toNat] = _
    simp only [parseRuleDelete, parseNumber_uint64, UInt64.ofNat_toNat]
  | promptAnswer id verdict scope =>
    change parsePromptAnswer [decimal id.toNat, verdict, scope] = _
    simp only [parsePromptAnswer, parseNumber_uint64, UInt64.ofNat_toNat]
  | dnsNote hostname ipv4 ttlSecs =>
    cases ttlSecs with
    | none => rfl
    | some secs =>
      change parseDnsNote [hostname, ipv4, decimal secs.toNat] = _
      simp only [parseDnsNote, parseNumber_uint64, UInt64.ofNat_toNat]
  | auditTail limit =>
    change parseAuditTail [decimal limit] = _
    simp only [parseAuditTail, parseNumber_decimal hallowed]
  | auditSubscribe id since =>
    change parseAuditSubscribe [id, "since=" ++ decimal since.toNat] = _
    simp only [parseAuditSubscribe, parseSince, stripPrefix_append, Option.bind_some,
      parseNumber_uint64, UInt64.ofNat_toNat]
  | trafficBlock scope direction =>
    simp only [Allowed, List.mem_cons, List.not_mem_nil, or_false] at hallowed
    obtain ⟨rfl | rfl, rfl | rfl | rfl⟩ := hallowed <;> rfl
  | trafficUnblock scope =>
    simp only [Allowed, List.mem_cons, List.not_mem_nil, or_false] at hallowed
    obtain rfl | rfl := hallowed <;> rfl
  | _ => rfl

/-- The command and the fields of a request are words. Assumes: the request is well formed. -/
theorem isWord_of_wellFormed {request : Request} (hwell : request.WellFormed) :
    ∀ word ∈ request.command :: request.fields, Text.IsWord word := by
  have hwords := hwell.words
  have hallowed := hwell.allowed
  have hcommand : Text.IsWord request.command := by
    cases request <;> (rw [command]; decide)
  intro word hword
  rcases List.mem_cons.mp hword with rfl | hfield
  · exact hcommand
  · cases request with
    | ruleAdd id executable verdict port =>
      simp only [fields, List.mem_cons, List.not_mem_nil, or_false] at hfield
      simp only [texts, List.forall_mem_cons] at hwords
      obtain rfl | rfl | rfl | rfl := hfield
      · exact isWord_decimal _
      · exact hwords.1
      · exact hwords.2.1
      · exact isWord_decimal _
    | ruleDelete id =>
      rw [List.mem_singleton.mp hfield]
      exact isWord_decimal _
    | promptAnswer id verdict scope =>
      simp only [fields, List.mem_cons, List.not_mem_nil, or_false] at hfield
      simp only [texts, List.forall_mem_cons] at hwords
      obtain rfl | rfl | rfl := hfield
      · exact isWord_decimal _
      · exact hwords.1
      · exact hwords.2.1
    | dnsNote hostname ipv4 ttlSecs =>
      rcases List.mem_append.mp hfield with htext | hsecs
      · exact hwords word htext
      · obtain ⟨secs, -, rfl⟩ := Option.map_eq_some_iff.mp (Option.mem_toList.mp hsecs)
        exact isWord_decimal _
    | auditTail limit =>
      rw [List.mem_singleton.mp hfield]
      exact isWord_decimal _
    | auditSubscribe id since =>
      simp only [fields, List.mem_cons, List.not_mem_nil, or_false] at hfield
      simp only [texts, List.forall_mem_cons] at hwords
      obtain rfl | rfl := hfield
      · exact hwords.1
      · exact Text.isWord_append (by decide) (isWord_decimal _)
    | trafficBlock scope direction =>
      simp only [Allowed, List.mem_cons, List.not_mem_nil, or_false] at hallowed
      simp only [fields, List.mem_cons, List.not_mem_nil, or_false] at hfield
      obtain rfl | rfl := hfield
      · refine Text.isWord_append (by decide) ?_
        obtain rfl | rfl := hallowed.1 <;> decide
      · refine Text.isWord_append (by decide) ?_
        obtain rfl | rfl | rfl := hallowed.2 <;> decide
    | trafficUnblock scope =>
      simp only [Allowed, List.mem_cons, List.not_mem_nil, or_false] at hallowed
      rw [List.mem_singleton.mp hfield]
      refine Text.isWord_append (by decide) ?_
      obtain rfl | rfl := hallowed <;> decide
    | _ => cases hfield

/-! ### What is read is allowed -/

/-- Only the words of the protocol are read as a scope and a direction. -/
theorem allowed_of_parseTrafficBlock {fields : List String} {request : Request}
    (hparse : parseTrafficBlock fields = .ok request) : request.Allowed := by
  unfold parseTrafficBlock at hparse
  split at hparse
  · split_ifs at hparse with hallowed
    obtain rfl := Except.ok.inj hparse
    exact hallowed
  · cases hparse

theorem allowed_of_parseTrafficUnblock {fields : List String} {request : Request}
    (hparse : parseTrafficUnblock fields = .ok request) : request.Allowed := by
  unfold parseTrafficUnblock at hparse
  split at hparse
  · split_ifs at hparse with hallowed
    obtain rfl := Except.ok.inj hparse
    exact hallowed
  · cases hparse

theorem lt_of_parseNumber {bound number : ℕ} {field : String}
    (hparse : parseNumber bound field = some number) : number < bound := by
  unfold parseNumber Text.parseUnsigned at hparse
  exact of_decide_eq_true (Option.filter_eq_some_iff.mp hparse).2

theorem allowed_of_parseAuditTail {fields : List String} {request : Request}
    (hparse : parseAuditTail fields = .ok request) : request.Allowed := by
  unfold parseAuditTail at hparse
  split at hparse
  · obtain rfl := Except.ok.inj hparse
    change maxLogRecordsPerSubscriber < 2 ^ 64
    decide
  · split at hparse
    · next hlimit =>
      obtain rfl := Except.ok.inj hparse
      exact lt_of_parseNumber hlimit
    · cases hparse
  · cases hparse

/-- Every request that is read is allowed. -/
theorem allowed_of_parseFields {command : String} {fields : List String} {request : Request}
    (hparse : parseFields command fields = .ok request) : request.Allowed := by
  unfold parseFields at hparse
  split at hparse
  case h_4 =>
    unfold parseRuleDelete at hparse
    repeat' split at hparse
    all_goals cases hparse
    trivial
  case h_5 =>
    unfold parseRuleAdd at hparse
    repeat' split at hparse
    all_goals cases hparse
    trivial
  case h_7 =>
    unfold parsePromptAnswer at hparse
    repeat' split at hparse
    all_goals cases hparse
    trivial
  case h_9 =>
    unfold parseDnsNote at hparse
    repeat' split at hparse
    all_goals cases hparse
    all_goals trivial
  case h_10 => exact allowed_of_parseAuditTail hparse
  case h_11 =>
    unfold parseAuditSubscribe at hparse
    repeat' split at hparse
    all_goals cases hparse
    all_goals trivial
  case h_18 => exact allowed_of_parseTrafficBlock hparse
  case h_19 => exact allowed_of_parseTrafficUnblock hparse
  case h_26 => cases hparse
  all_goals
    unfold parseBare at hparse
    split_ifs at hparse
    obtain rfl := Except.ok.inj hparse
    trivial

/-! ### One more token -/

/-- The token is a field that the command can still take: a further field of a traffic command, or
the optional field that was left out. -/
def FurtherField (command : String) (fields : List String) (token : String) : Prop :=
  match command with
  | "traffic-block" =>
    (stripPrefix "scope=" token).isSome ∨ (stripPrefix "direction=" token).isSome
  | "traffic-unblock" => (stripPrefix "scope=" token).isSome
  | "dns-note" => fields.length = 2 ∧ (parseNumber (2 ^ 64) token).isSome
  | "audit-tail" => fields = [] ∧ (parseNumber (2 ^ 64) token).isSome
  | "audit-subscribe" => fields.length = 1 ∧ (parseSince token).isSome
  | _ => False

section Append

variable {fields : List String} {request : Request} {token : String}

theorem parseBare_append (bare : Request) :
    parseBare bare (fields ++ [token]) = .error .malformed := by
  rw [parseBare, if_neg (by simp)]

theorem parseTrafficBlock_append (hscope : stripPrefix "scope=" token = none)
    (hdirection : stripPrefix "direction=" token = none) :
    parseTrafficBlock (fields ++ [token]) = .error .malformed := by
  have hnone : trafficFields (fields ++ [token]) = none := by
    rw [trafficFields, List.foldlM_append]
    simp [hscope, hdirection]
  rw [parseTrafficBlock, hnone]

theorem parseTrafficUnblock_append (hscope : stripPrefix "scope=" token = none) :
    parseTrafficUnblock (fields ++ [token]) = .error .malformed := by
  have hnone : scopeField (fields ++ [token]) = none := by
    rw [scopeField, List.foldlM_append]
    simp [hscope]
  rw [parseTrafficUnblock, hnone]

theorem parseRuleDelete_append (hparse : parseRuleDelete fields = .ok request) :
    parseRuleDelete (fields ++ [token]) = .error .malformed := by
  unfold parseRuleDelete at hparse
  split at hparse
  · rfl
  · cases hparse

theorem parseRuleAdd_append (hparse : parseRuleAdd fields = .ok request) :
    parseRuleAdd (fields ++ [token]) = .error .malformed := by
  unfold parseRuleAdd at hparse
  split at hparse
  · rfl
  · cases hparse

theorem parsePromptAnswer_append (hparse : parsePromptAnswer fields = .ok request) :
    parsePromptAnswer (fields ++ [token]) = .error .malformed := by
  unfold parsePromptAnswer at hparse
  split at hparse
  · rfl
  · cases hparse

theorem parseDnsNote_append (hparse : parseDnsNote fields = .ok request)
    (hnot : ¬ (fields.length = 2 ∧ (parseNumber (2 ^ 64) token).isSome)) :
    parseDnsNote (fields ++ [token]) = .error .malformed := by
  unfold parseDnsNote at hparse
  split at hparse
  · next hostname ipv4 =>
    have hnone : parseNumber (2 ^ 64) token = none := by
      rw [← Option.not_isSome_iff_eq_none]
      exact fun hsome ↦ hnot ⟨rfl, hsome⟩
    change parseDnsNote [hostname, ipv4, token] = _
    rw [parseDnsNote, hnone]
  · rfl
  · cases hparse

theorem parseAuditTail_append (hparse : parseAuditTail fields = .ok request)
    (hnot : ¬ (fields = [] ∧ (parseNumber (2 ^ 64) token).isSome)) :
    parseAuditTail (fields ++ [token]) = .error .malformed := by
  unfold parseAuditTail at hparse
  split at hparse
  · have hnone : parseNumber (2 ^ 64) token = none := by
      rw [← Option.not_isSome_iff_eq_none]
      exact fun hsome ↦ hnot ⟨rfl, hsome⟩
    change parseAuditTail [token] = _
    rw [parseAuditTail, hnone]
  · rfl
  · cases hparse

theorem parseAuditSubscribe_append (hparse : parseAuditSubscribe fields = .ok request)
    (hnot : ¬ (fields.length = 1 ∧ (parseSince token).isSome)) :
    parseAuditSubscribe (fields ++ [token]) = .error .malformed := by
  unfold parseAuditSubscribe at hparse
  split at hparse
  · next id =>
    have hnone : parseSince token = none := by
      rw [← Option.not_isSome_iff_eq_none]
      exact fun hsome ↦ hnot ⟨rfl, hsome⟩
    change parseAuditSubscribe [id, token] = _
    rw [parseAuditSubscribe, hnone]
  · rfl
  · cases hparse

end Append

/-- A further token is refused. Assumes: the fields before it are read, and the command cannot take
the token. -/
theorem parseFields_append {command : String} {fields : List String} {request : Request}
    {token : String} (hparse : parseFields command fields = .ok request)
    (hnot : ¬ FurtherField command fields token) :
    parseFields command (fields ++ [token]) = .error .malformed := by
  unfold parseFields at hparse
  split at hparse
  case h_4 => exact parseRuleDelete_append hparse
  case h_5 => exact parseRuleAdd_append hparse
  case h_7 => exact parsePromptAnswer_append hparse
  case h_9 => exact parseDnsNote_append hparse hnot
  case h_10 => exact parseAuditTail_append hparse hnot
  case h_11 => exact parseAuditSubscribe_append hparse hnot
  case h_18 =>
    obtain ⟨hscope, hdirection⟩ := not_or.mp hnot
    exact parseTrafficBlock_append (Option.not_isSome_iff_eq_none.mp hscope)
      (Option.not_isSome_iff_eq_none.mp hdirection)
  case h_19 => exact parseTrafficUnblock_append (Option.not_isSome_iff_eq_none.mp hnot)
  case h_26 => cases hparse
  all_goals exact parseBare_append _

/-! ### Frames -/

theorem wellFormed_of_parse {frame : List Char} {request : Request}
    (hparse : parse frame = .ok request) : request.WellFormed := by
  obtain ⟨command, fields, -, hfields⟩ := words_of_parse hparse
  exact ⟨isWord_of_parse hparse, allowed_of_parseFields hfields⟩

/-- The canonical frame of a request is read as the request. Assumes: the request is well formed. -/
theorem parse_canonicalFrame {request : Request} (hwell : request.WellFormed) :
    parse request.canonicalFrame = .ok request := by
  have hall : ∀ word ∈ "v1" :: request.command :: request.fields, Text.IsWord word := by
    intro word hword
    rcases List.mem_cons.mp hword with rfl | hrest
    · decide
    · exact isWord_of_wellFormed hwell word hrest
  rw [canonicalFrame, parse_of_words (Text.words_join_of_isWord hall),
    parseFields_canonical hwell.allowed]

/-- A frame has one meaning: a well-formed request is read from its canonical frame, an accepted
frame says what the canonical frame of its request says, only the words of a frame count, and one
more word is refused unless the command can take it. -/
theorem parse_one_meaning :
    (∀ request : Request, request.WellFormed → parse request.canonicalFrame = .ok request) ∧
    (∀ frame request, parse frame = .ok request → parse request.canonicalFrame = .ok request) ∧
    (∀ frame other, Text.words frame = Text.words other → parse frame = parse other) ∧
    ∀ frame extended command fields token request, parse frame = .ok request →
      Text.words frame = "v1" :: command :: fields →
      Text.words extended = Text.words frame ++ [token] →
      ¬ FurtherField command fields token → parse extended = .error .malformed := by
  refine ⟨fun request ↦ parse_canonicalFrame,
    fun frame request hparse ↦ parse_canonicalFrame (wellFormed_of_parse hparse),
    fun frame other hwords ↦ by rw [parse, parse, hwords], ?_⟩
  intro frame extended command fields token request hparse hwords hextended hnot
  rw [parse_of_words hwords] at hparse
  rw [hwords, List.cons_append, List.cons_append] at hextended
  rw [parse_of_words hextended]
  exact parseFields_append hparse hnot

/-- A note with a lifetime takes no further token. -/
theorem note_one_meaning :
    parse "v1 dns-note a.example 192.0.2.1 300".toList =
        .ok (.dnsNote "a.example" "192.0.2.1" (some 300)) ∧
      parse (canonicalFrame (.dnsNote "a.example" "192.0.2.1" (some 300))) =
        .ok (.dnsNote "a.example" "192.0.2.1" (some 300)) ∧
      parse "v1  dns-note a.example 192.0.2.1 300\t300\n".toList = .error .malformed := by
  have hparse : parse "v1 dns-note a.example 192.0.2.1 300".toList =
      .ok (.dnsNote "a.example" "192.0.2.1" (some 300)) := by decide
  refine ⟨hparse, parse_one_meaning.2.1 _ _ hparse, ?_⟩
  exact parse_one_meaning.2.2.2 _ _ "dns-note" ["a.example", "192.0.2.1", "300"] "300" _ hparse
    (by decide) (by decide) (fun hfield ↦ absurd hfield.1 (by decide))

end Request

end InterFire
