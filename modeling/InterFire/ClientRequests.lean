import InterFire.Requests

/-!
# What an operator enters and what is sent

Three clients format requests: the add-rule form of the terminal client
(`crates/interfire-tui/src/app.rs`), that of the desktop client (`ui/src/rules.rs`), and the command
line of `interfirectl`. They put the texts that were entered between spaces, and `Request::parse`
splits at white space, so a text that is no word is read as something else or not at all.

`entered_requests_conveyed_iff` says for each client exactly when the line that is sent is read as
the request that was entered.
-/

set_option autoImplicit false
set_option relaxedAutoImplicit false

namespace InterFire

open Request

/-! ### Rules -/

/-- The fields of a new rule, ready to be sent. -/
structure NewRule where
  id : UInt64
  executable : String
  verdict : String
  port : UInt16
  deriving DecidableEq, Repr

/-- The line that the terminal client and the desktop client send for a rule. -/
def NewRule.frame (rule : NewRule) : String :=
  "v1 rule-add " ++ decimal rule.id.toNat ++ " " ++ rule.executable ++ " " ++ rule.verdict ++ " " ++
    decimal rule.port.toNat ++ "\n"

def NewRule.request (rule : NewRule) : Request :=
  .ruleAdd rule.id rule.executable rule.verdict rule.port

/-! ### The form of the terminal client -/

inductive AddField
  | id
  | executable
  | verdict
  | port
  deriving DecidableEq, Repr

namespace AddField

def next : AddField → AddField
  | id => executable
  | executable => verdict
  | verdict => port
  | port => id

def prev : AddField → AddField
  | id => port
  | executable => id
  | verdict => executable
  | port => verdict

end AddField

structure AddRuleForm where
  id : String
  executable : String
  verdict : String
  port : String
  focus : AddField
  deriving DecidableEq, Repr

/-- The keys as the form tells them apart. -/
inductive AddFormKey
  | esc
  | enter
  | tab
  | backTab
  | backspace
  | char (character : Char)
  | other
  deriving DecidableEq, Repr

/-- The characters of the Unicode category Cc. -/
def isControl (character : Char) : Bool :=
  character.toNat < 0x20 || (0x7F ≤ character.toNat && character.toNat ≤ 0x9F)

namespace AddRuleForm

def new : AddRuleForm :=
  { id := "", executable := "", verdict := "deny", port := "443", focus := .id }

/-- Change the text of the focused field. -/
def modifyFocused (form : AddRuleForm) (change : List Char → List Char) : AddRuleForm :=
  let changed := fun text : String ↦ String.ofList (change text.toList)
  match form.focus with
  | .id => { form with id := changed form.id }
  | .executable => { form with executable := changed form.executable }
  | .verdict => { form with verdict := changed form.verdict }
  | .port => { form with port := changed form.port }

def toCommand (form : AddRuleForm) : Except String NewRule :=
  match parseNumber (2 ^ 64) form.id with
  | none => .error "id must be an integer"
  | some id =>
    if form.executable = "" || !RuleSet.isAbsolute form.executable then
      .error "executable must be an absolute path"
    else
      let verdict := Text.toAsciiLowercase form.verdict
      if verdict ∉ ["allow", "deny", "prompt"] then .error "verdict must be allow|deny|prompt"
      else
        match parseNumber (2 ^ 16) form.port with
        | none => .error "port must be 0..65535"
        | some port =>
          .ok
            { id := UInt64.ofNat id
              executable := form.executable
              verdict
              port := UInt16.ofNat port }

/-- A key: the form that stays open, and the rule that is sent. -/
def handleAddOverlayKey (form : AddRuleForm) : AddFormKey → Option AddRuleForm × Option NewRule
  | .esc => (none, none)
  | .enter =>
    match form.toCommand with
    | .ok command => (none, some command)
    | .error _ => (some form, none)
  | .tab => (some { form with focus := form.focus.next }, none)
  | .backTab => (some { form with focus := form.focus.prev }, none)
  | .backspace => (some (form.modifyFocused List.dropLast), none)
  | .char character =>
    if !isControl character then (some (form.modifyFocused (· ++ [character])), none)
    else (some form, none)
  | .other => (some form, none)

/-- The form after keys, while it is open. -/
def typeKeys (keys : List AddFormKey) : Option AddRuleForm :=
  keys.foldlM (fun form key ↦ (form.handleAddOverlayKey key).1) new

end AddRuleForm

/-! ### The form of the desktop client -/

inductive RuleVerdict
  | allow
  | deny
  | prompt
  deriving DecidableEq, Repr

def RuleVerdict.asStr : RuleVerdict → String
  | allow => "allow"
  | deny => "deny"
  | prompt => "prompt"

/-- A text without the white space around it. -/
def trimmed (text : String) : String := String.ofList (Text.trim text.toList)

def validateNewRule (id executable : String) (verdict : RuleVerdict) (port : String) :
    Except String NewRule :=
  match parseNumber (2 ^ 64) (trimmed id) with
  | none => .error "id must be an integer"
  | some id =>
    if trimmed executable = "" || !RuleSet.isAbsolute (trimmed executable) then
      .error "executable must be an absolute path"
    else
      match parseNumber (2 ^ 16) (trimmed port) with
      | none => .error "port must be 0..65535"
      | some port =>
        .ok
          { id := UInt64.ofNat id
            executable := trimmed executable
            verdict := verdict.asStr
            port := UInt16.ofNat port }

/-! ### The command line -/

/-- The scope and the direction of the options, the last of each. -/
def trafficOptions (rest : List String) : Option (String × String) :=
  rest.foldlM (fun found argument ↦
    match stripPrefix "--scope=" argument with
    | some scope => some (scope, found.2)
    | none => (stripPrefix "--direction=" argument).map fun direction ↦ (found.1, direction))
    ("user", "out")

def parseTrafficCommand (action : String) (rest : List String) : Option String :=
  match trafficOptions rest with
  | none => none
  | some (scope, direction) =>
    if scope ∉ ["user", "machine"] then none
    else
      match action with
      | "block" =>
        if direction ∈ ["out", "in", "all"] then
          some ("traffic-block scope=" ++ scope ++ " direction=" ++ direction)
        else none
      | "unblock" => some ("traffic-unblock scope=" ++ scope)
      | _ => none

/-- A text that is read as a number below a bound. -/
def isNumber (bound : ℕ) (text : String) : Bool := (parseNumber bound text).isSome

def parseCommand : List String → Option String
  | [] => some "status"
  | [command] => if command ∈ ["ping", "status", "pause", "resume"] then some command else none
  | ["traffic", "status"] => some "status"
  | "traffic" :: action :: rest => parseTrafficCommand action rest
  | ["rules", "list"] => some "rule-list"
  | ["rules", "add", id, executable, verdict, port] =>
    if isNumber (2 ^ 64) id && isNumber (2 ^ 16) port then
      some ("rule-add " ++ id ++ " " ++ executable ++ " " ++ verdict ++ " " ++ port)
    else none
  | ["rules", "delete", id] =>
    if isNumber (2 ^ 64) id then some ("rule-delete " ++ id) else none
  | ["prompts", "list"] => some "prompt-list"
  | ["prompts", "answer", id, verdict, scope] =>
    if isNumber (2 ^ 64) id && verdict ∈ ["allow", "deny"] &&
        scope ∈ ["once", "session", "permanent"] then
      some ("prompt-answer " ++ id ++ " " ++ verdict ++ " " ++ scope)
    else none
  | ["dns", "list"] => some "dns-list"
  | ["dns", "note", hostname, ipv4] =>
    if hostname ≠ "" then some ("dns-note " ++ hostname ++ " " ++ ipv4) else none
  | ["dns", "note", hostname, ipv4, ttl] =>
    if hostname ≠ "" && isNumber (2 ^ 64) ttl then
      some ("dns-note " ++ hostname ++ " " ++ ipv4 ++ " " ++ ttl)
    else none
  | ["audit", "tail"] => some "audit-tail"
  | ["audit", "tail", limit] =>
    if isNumber (2 ^ 64) limit then some ("audit-tail " ++ limit) else none
  | ["audit", "subscribe", id] => if id ≠ "" then some ("audit-subscribe " ++ id) else none
  | ["audit", "subscribe", id, since] =>
    if id ≠ "" && (stripPrefix "since=" since).isSome then
      some ("audit-subscribe " ++ id ++ " " ++ since)
    else none
  | ["network", "status"] => some "network-status"
  | ["network", "install"] => some "network-install"
  | ["network", "remove"] => some "network-remove"
  | _ => none

/-- The line that `interfirectl` sends. -/
def commandFrame (command : String) : String := "v1 " ++ command ++ "\n"

/-! ### What was entered -/

/-- The rule of the fields of a form, when its numbers are numbers. -/
def enteredRule (id executable verdict port : String) : Option Request := do
  let id ← parseNumber (2 ^ 64) id
  let port ← parseNumber (2 ^ 16) port
  return .ruleAdd (UInt64.ofNat id) executable verdict (UInt16.ofNat port)

/-- What the arguments of `interfirectl` ask for. -/
def enteredRequest : List String → Option Request
  | [] => some .status
  | ["ping"] => some .ping
  | ["status"] => some .status
  | ["pause"] => some .pause
  | ["resume"] => some .resume
  | ["traffic", "status"] => some .status
  | "traffic" :: "block" :: rest =>
    (trafficOptions rest).map fun options ↦ .trafficBlock options.1 options.2
  | "traffic" :: "unblock" :: rest =>
    (trafficOptions rest).map fun options ↦ .trafficUnblock options.1
  | ["rules", "list"] => some .ruleList
  | ["rules", "add", id, executable, verdict, port] => enteredRule id executable verdict port
  | ["rules", "delete", id] => (parseNumber (2 ^ 64) id).map fun id ↦ .ruleDelete (UInt64.ofNat id)
  | ["prompts", "list"] => some .promptList
  | ["prompts", "answer", id, verdict, scope] =>
    (parseNumber (2 ^ 64) id).map fun id ↦ .promptAnswer (UInt64.ofNat id) verdict scope
  | ["dns", "list"] => some .dnsList
  | ["dns", "note", hostname, ipv4] => some (.dnsNote hostname ipv4 none)
  | ["dns", "note", hostname, ipv4, ttl] =>
    (parseNumber (2 ^ 64) ttl).map fun ttl ↦ .dnsNote hostname ipv4 (some (UInt64.ofNat ttl))
  | ["audit", "tail"] => some (.auditTail maxLogRecordsPerSubscriber)
  | ["audit", "tail", limit] => (parseNumber (2 ^ 64) limit).map .auditTail
  | ["audit", "subscribe", id] => some (.auditSubscribe id 0)
  | ["audit", "subscribe", id, since] =>
    (parseSince since).map fun since ↦ .auditSubscribe id (UInt64.ofNat since)
  | ["network", "status"] => some .networkStatus
  | ["network", "install"] => some .networkInstall
  | ["network", "remove"] => some .networkRemove
  | _ => none

/-- One line is sent, and it is read as the request that was entered. -/
def Conveys (frame : List Char) (entered : Option Request) : Prop :=
  Text.OneLine frame ∧ ∃ request, entered = some request ∧ Request.parse frame = .ok request

/-- The texts among the arguments of `interfirectl` are words, and the number after `since=` is a
number. -/
def Sendable : List String → Prop
  | ["rules", "add", _, executable, verdict, _] => Text.IsWord executable ∧ Text.IsWord verdict
  | ["dns", "note", hostname, ipv4] => Text.IsWord hostname ∧ Text.IsWord ipv4
  | ["dns", "note", hostname, ipv4, _] => Text.IsWord hostname ∧ Text.IsWord ipv4
  | ["audit", "subscribe", id] => Text.IsWord id
  | ["audit", "subscribe", id, since] => Text.IsWord id ∧ (parseSince since).isSome
  | _ => True

/-! ### Lines of words -/

/-- A frame of words is one line. Assumes: they are words. -/
theorem oneLine_requestLine {line : List String} (hwords : ∀ word ∈ line, Text.IsWord word) :
    Text.OneLine (requestLine line) := by
  refine ⟨_, rfl, fun hmem ↦ ?_⟩
  rcases Text.mem_of_mem_join hmem with heq | ⟨text, htext, hnewline⟩
  · exact absurd heq (by decide)
  · obtain ⟨word, hword, rfl⟩ := List.mem_map.mp htext
    have hsolid : Text.IsWord word := by
      rcases List.mem_cons.mp hword with rfl | hrest
      · decide
      · exact hwords word hrest
    exact absurd (hsolid.2 '\n' hnewline) (by decide)

/-- A line conveys a request exactly when its texts are words. Assumes: the fields are read as the
request, and they are words once the texts are. -/
theorem conveys_requestLine_iff {command : String} {fields : List String} {request : Request}
    (hparse : parseFields command fields = .ok request)
    (hwords : (∀ text ∈ request.texts, Text.IsWord text) →
      ∀ word ∈ command :: fields, Text.IsWord word) :
    Conveys (requestLine (command :: fields)) (some request) ↔
      ∀ text ∈ request.texts, Text.IsWord text := by
  constructor
  · rintro ⟨_, found, hfound, hread⟩
    obtain rfl := Option.some.inj hfound
    exact isWord_of_parse hread
  · intro htexts
    refine ⟨oneLine_requestLine (hwords htexts), request, rfl, ?_⟩
    rw [parse_requestLine (hwords htexts), hparse]

theorem toList_frame (rule : NewRule) :
    rule.frame.toList = requestLine ["rule-add", decimal rule.id.toNat, rule.executable,
      rule.verdict, decimal rule.port.toNat] := by
  have hframe : rule.frame = "v1 rule-add " ++ decimal rule.id.toNat ++ " " ++ rule.executable ++
      " " ++ rule.verdict ++ " " ++ decimal rule.port.toNat ++ "\n" := rfl
  rw [hframe]
  simp [requestLine, Text.join]

theorem isWord_decimal (value : ℕ) : Text.IsWord (decimal value) := by
  have hdigits : (decimal value).toList = Nat.toDigits 10 value := Nat.toList_repr
  rw [Text.IsWord, hdigits]
  exact ⟨Nat.toDigits_ne_nil, fun _ hmem ↦ Text.not_isWhitespace_of_mem_toDigits hmem⟩

theorem parseNumber_decimal {bound value : ℕ} (hlt : value < bound) :
    parseNumber bound (decimal value) = some value := by
  have hdigits : (decimal value).toList = Nat.toDigits 10 value := Nat.toList_repr
  rw [parseNumber, hdigits, Text.parseUnsigned_toDigits hlt]

/-- The line of a rule conveys it exactly when the executable is a word. Assumes: the verdict is. -/
theorem conveys_frame_iff {rule : NewRule} (hverdict : Text.IsWord rule.verdict) :
    Conveys rule.frame.toList (some rule.request) ↔ Text.IsWord rule.executable := by
  have hparse : parseFields "rule-add" [decimal rule.id.toNat, rule.executable, rule.verdict,
      decimal rule.port.toNat] = .ok rule.request := by
    change parseRuleAdd [decimal rule.id.toNat, rule.executable, rule.verdict,
      decimal rule.port.toNat] = _
    rw [parseRuleAdd, parseNumber_decimal rule.id.toNat_lt, parseNumber_decimal rule.port.toNat_lt]
    simp [NewRule.request]
  rw [toList_frame, conveys_requestLine_iff hparse]
  · simp [NewRule.request, texts, hverdict]
  · have hcommand : Text.IsWord "rule-add" := by decide
    simp +contextual [NewRule.request, texts, isWord_decimal, hcommand]

/-! ### The two forms -/

/-- What the form of the terminal client accepts. Assumes: it accepts the form. -/
theorem AddRuleForm.of_toCommand {form : AddRuleForm} {rule : NewRule}
    (hcommand : form.toCommand = .ok rule) :
    enteredRule form.id form.executable (Text.toAsciiLowercase form.verdict) form.port =
        some rule.request ∧
      rule.executable = form.executable ∧ Text.IsWord rule.verdict := by
  unfold AddRuleForm.toCommand at hcommand
  split at hcommand
  · cases hcommand
  · next id hid =>
    dsimp only at hcommand
    split_ifs at hcommand with _ hverdict
    split at hcommand
    · cases hcommand
    · next port hport =>
      obtain rfl := Except.ok.inj hcommand
      refine ⟨?_, rfl, ?_⟩
      · rw [enteredRule, hid, hport]
        rfl
      · have hwords : ∀ word ∈ ["allow", "deny", "prompt"], Text.IsWord word := by decide
        exact hwords _ hverdict

/-- What the form of the desktop client accepts. Assumes: it accepts the fields. -/
theorem of_validateNewRule {id executable port : String} {verdict : RuleVerdict} {rule : NewRule}
    (hvalid : validateNewRule id executable verdict port = .ok rule) :
    enteredRule (trimmed id) (trimmed executable) verdict.asStr (trimmed port) =
        some rule.request ∧
      rule.executable = trimmed executable ∧ Text.IsWord rule.verdict := by
  unfold validateNewRule at hvalid
  split at hvalid
  · cases hvalid
  · next id hid =>
    split_ifs at hvalid
    split at hvalid
    · cases hvalid
    · next port hport =>
      obtain rfl := Except.ok.inj hvalid
      refine ⟨?_, rfl, ?_⟩
      · rw [enteredRule, hid, hport]
        rfl
      · have hword : Text.IsWord verdict.asStr := by
          cases verdict <;> decide
        exact hword

/-- The texts of a form. -/
def AddRuleForm.texts (form : AddRuleForm) : List String :=
  [form.id, form.executable, form.verdict, form.port]

/-- No text of the form has a control character. -/
def AddRuleForm.Printable (form : AddRuleForm) : Prop :=
  ∀ text ∈ form.texts, ∀ character ∈ text.toList, isControl character = false

/-- Changing the focused field keeps the form printable. Assumes: the form is, and the change adds no
control character. -/
theorem AddRuleForm.printable_modifyFocused {form : AddRuleForm} (hform : form.Printable)
    {change : List Char → List Char}
    (hchange : ∀ text, ∀ character ∈ change text, character ∈ text ∨ isControl character = false) :
    (form.modifyFocused change).Printable := by
  have hchanged : ∀ text ∈ form.texts, ∀ character ∈ (String.ofList (change text.toList)).toList,
      isControl character = false := by
    intro text htext character hmem
    rw [String.toList_ofList] at hmem
    rcases hchange text.toList character hmem with hold | hnew
    · exact hform text htext character hold
    · exact hnew
  simp only [AddRuleForm.Printable, AddRuleForm.texts, List.forall_mem_cons] at hform hchanged ⊢
  unfold AddRuleForm.modifyFocused
  cases form.focus <;> simp_all

/-- A key keeps the form printable. Assumes: the form is, and it stays open. -/
theorem AddRuleForm.printable_handleAddOverlayKey {form after : AddRuleForm} {key : AddFormKey}
    (hform : form.Printable) (hkey : (form.handleAddOverlayKey key).1 = some after) :
    after.Printable := by
  cases key with
  | esc => cases hkey
  | enter =>
    simp only [handleAddOverlayKey] at hkey
    split at hkey
    · cases hkey
    · obtain rfl := Option.some.inj hkey
      exact hform
  | tab =>
    obtain rfl := Option.some.inj hkey
    exact hform
  | backTab =>
    obtain rfl := Option.some.inj hkey
    exact hform
  | backspace =>
    obtain rfl := Option.some.inj hkey
    exact printable_modifyFocused hform fun text character hmem ↦
      .inl (List.dropLast_subset text hmem)
  | char character =>
    simp only [handleAddOverlayKey] at hkey
    split_ifs at hkey with hcontrol
    · obtain rfl := Option.some.inj hkey
      refine printable_modifyFocused hform fun text other hmem ↦ ?_
      rcases List.mem_append.mp hmem with hold | hnew
      · exact .inl hold
      · obtain rfl := List.mem_singleton.mp hnew
        exact .inr (by simpa using hcontrol)
    · obtain rfl := Option.some.inj hkey
      exact hform
  | other =>
    obtain rfl := Option.some.inj hkey
    exact hform

/-- Every form that keys produce is printable. Assumes: it is one. -/
theorem AddRuleForm.printable_of_typeKeys {keys : List AddFormKey} {form : AddRuleForm}
    (hkeys : typeKeys keys = some form) : form.Printable := by
  have hrun : ∀ (keys : List AddFormKey) (start : AddRuleForm), start.Printable →
      keys.foldlM (fun form key ↦ (form.handleAddOverlayKey key).1) start = some form →
        form.Printable := by
    intro keys
    induction keys with
    | nil =>
      intro start hstart hfold
      obtain rfl := Option.some.inj hfold
      exact hstart
    | cons key rest ih =>
      intro start hstart hfold
      rw [List.foldlM_cons, Option.bind_eq_bind, Option.bind_eq_some_iff] at hfold
      obtain ⟨next, hkey, hrest⟩ := hfold
      exact ih next (printable_handleAddOverlayKey hstart hkey) hrest
  refine hrun keys new ?_ hkeys
  simp [Printable, texts, new, isControl]

/-- The line of a rule is one line. Assumes: the executable has no newline, and the verdict is a
word. -/
theorem oneLine_frame {rule : NewRule} (hexecutable : '\n' ∉ rule.executable.toList)
    (hverdict : Text.IsWord rule.verdict) : Text.OneLine rule.frame.toList := by
  rw [toList_frame]
  refine ⟨_, rfl, fun hmem ↦ ?_⟩
  rcases Text.mem_of_mem_join hmem with heq | ⟨text, htext, hnewline⟩
  · exact absurd heq (by decide)
  · have hword : ∀ word, Text.IsWord word → '\n' ∉ word.toList := fun word hword hmem ↦
      absurd (hword.2 '\n' hmem) (by decide)
    simp only [List.map_cons, List.map_nil, List.mem_cons, List.not_mem_nil, or_false] at htext
    rcases htext with rfl | rfl | rfl | rfl | rfl | rfl
    · exact absurd hnewline (by decide)
    · exact absurd hnewline (by decide)
    · exact hword _ (isWord_decimal _) hnewline
    · exact hexecutable hnewline
    · exact hword _ hverdict hnewline
    · exact hword _ (isWord_decimal _) hnewline

/-! ### The command line -/

/-- The line of a command conveys its request exactly when the texts are words. Assumes: the line has
the command and the fields, which are read as the request and are words once the texts are. -/
theorem conveys_command_iff {command name : String} {fields : List String} {request : Request}
    (hframe : (commandFrame command).toList = requestLine (name :: fields))
    (hname : Text.IsWord name) (hparse : parseFields name fields = .ok request)
    (hfields : (∀ text ∈ request.texts, Text.IsWord text) → ∀ field ∈ fields, Text.IsWord field) :
    Conveys (commandFrame command).toList (some request) ↔
      ∀ text ∈ request.texts, Text.IsWord text := by
  rw [hframe]
  refine conveys_requestLine_iff hparse fun htexts word hword ↦ ?_
  rcases List.mem_cons.mp hword with rfl | hfield
  · exact hname
  · exact hfields htexts word hfield

/-- The line of a command without fields conveys its request. Assumes: the command is a word that is
read so. -/
theorem conveys_bare {command : String} {request : Request} (hcommand : Text.IsWord command)
    (hparse : parseFields command [] = .ok request) (htexts : request.texts = []) :
    Conveys (commandFrame command).toList (some request) := by
  have hframe : (commandFrame command).toList = requestLine [command] := by
    simp [commandFrame, requestLine, Text.join]
  rw [conveys_command_iff hframe hcommand hparse fun _ ↦ List.forall_mem_nil _, htexts]
  exact List.forall_mem_nil _

theorem exists_of_isNumber {bound : ℕ} {text : String} (hnumber : isNumber bound text = true) :
    ∃ number, parseNumber bound text = some number ∧ Text.IsWord text := by
  obtain ⟨number, hparse⟩ := Option.isSome_iff_exists.mp hnumber
  exact ⟨number, hparse, isWord_of_parseNumber hparse⟩

theorem conveys_ruleAdd_iff {id executable verdict port : String}
    (hid : isNumber (2 ^ 64) id = true) (hport : isNumber (2 ^ 16) port = true) :
    Conveys (commandFrame ("rule-add " ++ id ++ " " ++ executable ++ " " ++ verdict ++ " " ++
        port)).toList (enteredRule id executable verdict port) ↔
      Text.IsWord executable ∧ Text.IsWord verdict := by
  obtain ⟨idNumber, hid, hidWord⟩ := exists_of_isNumber hid
  obtain ⟨portNumber, hport, hportWord⟩ := exists_of_isNumber hport
  have hentered : enteredRule id executable verdict port =
      some (.ruleAdd (UInt64.ofNat idNumber) executable verdict (UInt16.ofNat portNumber)) := by
    rw [enteredRule, hid, hport]
    rfl
  have hframe : (commandFrame ("rule-add " ++ id ++ " " ++ executable ++ " " ++ verdict ++ " " ++
      port)).toList = requestLine ["rule-add", id, executable, verdict, port] := by
    simp [commandFrame, requestLine, Text.join]
  rw [hentered, conveys_command_iff hframe (by decide)]
  · simp [texts]
  · change parseRuleAdd [id, executable, verdict, port] = _
    rw [parseRuleAdd, hid, hport]
  · simp +contextual [texts, hidWord, hportWord]

theorem conveys_ruleDelete {id : String} (hid : isNumber (2 ^ 64) id = true) :
    Conveys (commandFrame ("rule-delete " ++ id)).toList
      ((parseNumber (2 ^ 64) id).map fun id ↦ .ruleDelete (UInt64.ofNat id)) := by
  obtain ⟨number, hid, hword⟩ := exists_of_isNumber hid
  have hframe : (commandFrame ("rule-delete " ++ id)).toList = requestLine ["rule-delete", id] := by
    simp [commandFrame, requestLine, Text.join]
  rw [hid, Option.map_some, conveys_command_iff hframe (by decide)]
  · simp [texts]
  · change parseRuleDelete [id] = _
    rw [parseRuleDelete, hid]
  · simp [hword]

/-- An answer is conveyed. Assumes: the id is a number, and the verdict and the scope are among those
that the command line accepts. -/
theorem conveys_promptAnswer {id verdict scope : String} (hid : isNumber (2 ^ 64) id = true)
    (hverdict : verdict ∈ ["allow", "deny"])
    (hscope : scope ∈ ["once", "session", "permanent"]) :
    Conveys (commandFrame ("prompt-answer " ++ id ++ " " ++ verdict ++ " " ++ scope)).toList
      ((parseNumber (2 ^ 64) id).map fun id ↦ .promptAnswer (UInt64.ofNat id) verdict scope) := by
  obtain ⟨number, hid, hword⟩ := exists_of_isNumber hid
  have hverdicts : ∀ word ∈ ["allow", "deny"], Text.IsWord word := by decide
  have hscopes : ∀ word ∈ ["once", "session", "permanent"], Text.IsWord word := by decide
  have hframe : (commandFrame ("prompt-answer " ++ id ++ " " ++ verdict ++ " " ++ scope)).toList =
      requestLine ["prompt-answer", id, verdict, scope] := by
    simp [commandFrame, requestLine, Text.join]
  rw [hid, Option.map_some, conveys_command_iff hframe (by decide)]
  · simpa [texts] using ⟨hverdicts verdict hverdict, hscopes scope hscope⟩
  · change parsePromptAnswer [id, verdict, scope] = _
    rw [parsePromptAnswer, hid]
  · simp +contextual [texts, hword]

theorem conveys_dnsNote_iff (hostname ipv4 : String) :
    Conveys (commandFrame ("dns-note " ++ hostname ++ " " ++ ipv4)).toList
        (some (.dnsNote hostname ipv4 none)) ↔ Text.IsWord hostname ∧ Text.IsWord ipv4 := by
  have hframe : (commandFrame ("dns-note " ++ hostname ++ " " ++ ipv4)).toList =
      requestLine ["dns-note", hostname, ipv4] := by
    simp [commandFrame, requestLine, Text.join]
  rw [conveys_command_iff hframe (by decide)]
  · simp [texts]
  · rfl
  · simp [texts]

theorem conveys_dnsNote_ttl_iff {hostname ipv4 ttl : String}
    (httl : isNumber (2 ^ 64) ttl = true) :
    Conveys (commandFrame ("dns-note " ++ hostname ++ " " ++ ipv4 ++ " " ++ ttl)).toList
        ((parseNumber (2 ^ 64) ttl).map fun ttl ↦
          .dnsNote hostname ipv4 (some (UInt64.ofNat ttl))) ↔
      Text.IsWord hostname ∧ Text.IsWord ipv4 := by
  obtain ⟨number, httl, hword⟩ := exists_of_isNumber httl
  have hframe : (commandFrame ("dns-note " ++ hostname ++ " " ++ ipv4 ++ " " ++ ttl)).toList =
      requestLine ["dns-note", hostname, ipv4, ttl] := by
    simp [commandFrame, requestLine, Text.join]
  rw [httl, Option.map_some, conveys_command_iff hframe (by decide)]
  · simp [texts]
  · change parseDnsNote [hostname, ipv4, ttl] = _
    rw [parseDnsNote, httl]
  · simp +contextual [texts, hword]

theorem conveys_auditTail {limit : String} (hlimit : isNumber (2 ^ 64) limit = true) :
    Conveys (commandFrame ("audit-tail " ++ limit)).toList
      ((parseNumber (2 ^ 64) limit).map .auditTail) := by
  obtain ⟨number, hlimit, hword⟩ := exists_of_isNumber hlimit
  have hframe : (commandFrame ("audit-tail " ++ limit)).toList =
      requestLine ["audit-tail", limit] := by
    simp [commandFrame, requestLine, Text.join]
  rw [hlimit, Option.map_some, conveys_command_iff hframe (by decide)]
  · simp [texts]
  · change parseAuditTail [limit] = _
    rw [parseAuditTail, hlimit]
  · simp [hword]

theorem conveys_auditSubscribe_iff (id : String) :
    Conveys (commandFrame ("audit-subscribe " ++ id)).toList (some (.auditSubscribe id 0)) ↔
      Text.IsWord id := by
  have hframe : (commandFrame ("audit-subscribe " ++ id)).toList =
      requestLine ["audit-subscribe", id] := by
    simp [commandFrame, requestLine, Text.join]
  rw [conveys_command_iff hframe (by decide)]
  · simp [texts]
  · rfl
  · simp [texts]

/-- A field with a number after `since=` is a word. Assumes: it is read. -/
theorem isWord_of_parseSince {since : String} {number : ℕ} (hsince : parseSince since = some number) :
    Text.IsWord since := by
  rw [parseSince, Option.bind_eq_some_iff] at hsince
  obtain ⟨value, hvalue, hnumber⟩ := hsince
  rw [stripPrefix, Option.map_eq_some_iff] at hvalue
  obtain ⟨rest, hrest, rfl⟩ := hvalue
  obtain ⟨start, htext, hstart⟩ := List.dropPrefix?_eq_some_iff.mp hrest
  obtain rfl := eq_of_beq hstart
  have hsince : since = "since=" ++ String.ofList rest := by
    rw [← String.toList_inj, htext]
    simp
  rw [hsince]
  exact Text.isWord_append (by decide) (isWord_of_parseNumber hnumber)

theorem conveys_auditSubscribe_since_iff (id since : String) :
    Conveys (commandFrame ("audit-subscribe " ++ id ++ " " ++ since)).toList
        ((parseSince since).map fun since ↦ .auditSubscribe id (UInt64.ofNat since)) ↔
      Text.IsWord id ∧ (parseSince since).isSome = true := by
  cases hsince : parseSince since with
  | none =>
    refine iff_of_false ?_ (by simp)
    rintro ⟨_, request, hnone, _⟩
    cases hnone
  | some number =>
    have hword := isWord_of_parseSince hsince
    have hframe : (commandFrame ("audit-subscribe " ++ id ++ " " ++ since)).toList =
        requestLine ["audit-subscribe", id, since] := by
      simp [commandFrame, requestLine, Text.join]
    rw [Option.map_some, conveys_command_iff hframe (by decide)]
    · simp [texts]
    · change parseAuditSubscribe [id, since] = _
      rw [parseAuditSubscribe, hsince]
    · simp +contextual [texts, hword]

/-- A traffic command is conveyed. Assumes: the command line accepts it. -/
theorem conveys_traffic {action command : String} {rest : List String}
    (hcommand : parseTrafficCommand action rest = some command) :
    Conveys (commandFrame command).toList (enteredRequest ("traffic" :: action :: rest)) := by
  unfold parseTrafficCommand at hcommand
  split at hcommand
  · cases hcommand
  · next scope direction hoptions =>
    by_cases hscope : scope ∈ ["user", "machine"]
    swap
    · rw [if_pos hscope] at hcommand
      cases hcommand
    rw [if_neg (not_not.mpr hscope)] at hcommand
    split at hcommand
    · split_ifs at hcommand with hdirection
      obtain rfl := Option.some.inj hcommand
      have hentered : enteredRequest ("traffic" :: "block" :: rest) =
          some (.trafficBlock scope direction) := by
        change (trafficOptions rest).map _ = _
        rw [hoptions]
        rfl
      have hframe : (commandFrame ("traffic-block scope=" ++ scope ++ " direction=" ++
          direction)).toList =
            requestLine ["traffic-block", "scope=" ++ scope, "direction=" ++ direction] := by
        simp [commandFrame, requestLine, Text.join]
      rw [hentered, conveys_command_iff hframe (by decide)]
      · simp [texts]
      · simp only [List.mem_cons, List.not_mem_nil, or_false] at hscope hdirection
        rcases hscope with rfl | rfl <;> rcases hdirection with rfl | rfl | rfl <;> rfl
      · intro _
        simp only [List.mem_cons, List.not_mem_nil, or_false] at hscope hdirection
        rcases hscope with rfl | rfl <;> rcases hdirection with rfl | rfl | rfl <;> decide
    · obtain rfl := Option.some.inj hcommand
      have hentered : enteredRequest ("traffic" :: "unblock" :: rest) =
          some (.trafficUnblock scope) := by
        change (trafficOptions rest).map _ = _
        rw [hoptions]
        rfl
      have hframe : (commandFrame ("traffic-unblock scope=" ++ scope)).toList =
          requestLine ["traffic-unblock", "scope=" ++ scope] := by
        simp [commandFrame, requestLine, Text.join]
      rw [hentered, conveys_command_iff hframe (by decide)]
      · simp [texts]
      · simp only [List.mem_cons, List.not_mem_nil, or_false] at hscope
        rcases hscope with rfl | rfl <;> rfl
      · intro _
        simp only [List.mem_cons, List.not_mem_nil, or_false] at hscope
        rcases hscope with rfl | rfl <;> decide
    · cases hcommand

/-- The line of a command of `interfirectl` conveys what was entered exactly when the arguments are
sendable. Assumes: the arguments are accepted. -/
theorem conveys_parseCommand_iff {arguments : List String} {command : String}
    (hcommand : parseCommand arguments = some command) :
    Conveys (commandFrame command).toList (enteredRequest arguments) ↔ Sendable arguments := by
  -- The commands without fields.
  have hbare {name : String} {request : Request} (hname : name = command)
      (hword : Text.IsWord name) (hparse : parseFields name [] = .ok request)
      (htexts : request.texts = []) : Conveys (commandFrame command).toList (some request) :=
    hname ▸ conveys_bare hword hparse htexts
  unfold parseCommand at hcommand
  split at hcommand
  case h_1 =>
    exact iff_of_true (hbare (Option.some.inj hcommand) (by decide) rfl rfl) trivial
  case h_2 name =>
    split_ifs at hcommand with hname
    simp only [List.mem_cons, List.not_mem_nil, or_false] at hname
    rcases hname with rfl | rfl | rfl | rfl <;>
      exact iff_of_true (hbare (Option.some.inj hcommand) (by decide) rfl rfl) trivial
  case h_4 action rest _ => exact iff_of_true (conveys_traffic hcommand) trivial
  case h_6 id executable verdict port =>
    split_ifs at hcommand with hnumbers
    obtain rfl := Option.some.inj hcommand
    rw [Bool.and_eq_true] at hnumbers
    exact conveys_ruleAdd_iff hnumbers.1 hnumbers.2
  case h_7 id =>
    split_ifs at hcommand with hid
    obtain rfl := Option.some.inj hcommand
    exact iff_of_true (conveys_ruleDelete hid) trivial
  case h_9 id verdict scope =>
    split_ifs at hcommand with hall
    obtain rfl := Option.some.inj hcommand
    simp only [Bool.and_eq_true, decide_eq_true_eq] at hall
    exact iff_of_true (conveys_promptAnswer hall.1.1 hall.1.2 hall.2) trivial
  case h_11 hostname ipv4 =>
    split_ifs at hcommand
    obtain rfl := Option.some.inj hcommand
    exact conveys_dnsNote_iff hostname ipv4
  case h_12 hostname ipv4 ttl =>
    split_ifs at hcommand with hall
    obtain rfl := Option.some.inj hcommand
    rw [Bool.and_eq_true] at hall
    exact conveys_dnsNote_ttl_iff hall.2
  case h_14 limit =>
    split_ifs at hcommand with hlimit
    obtain rfl := Option.some.inj hcommand
    exact iff_of_true (conveys_auditTail hlimit) trivial
  case h_15 id =>
    split_ifs at hcommand
    obtain rfl := Option.some.inj hcommand
    exact conveys_auditSubscribe_iff id
  case h_16 id since =>
    split_ifs at hcommand
    obtain rfl := Option.some.inj hcommand
    exact conveys_auditSubscribe_since_iff id since
  case h_20 => cases hcommand
  all_goals
    exact iff_of_true (hbare (Option.some.inj hcommand) (by decide) rfl rfl) trivial

/-- What is sent means what was entered exactly when the texts are words: for every form that keys of
the terminal client produce and that it accepts, which is always sent as one line; for every form
that the desktop client accepts; and for all arguments that `interfirectl` accepts. Assumes: the
client accepts what is entered. -/
theorem entered_requests_conveyed_iff (keys : List AddFormKey) (form : AddRuleForm)
    (id executable port : String) (verdict : RuleVerdict) (rule : NewRule)
    (arguments : List String) (command : String) :
    (AddRuleForm.typeKeys keys = some form → form.toCommand = .ok rule →
      Text.OneLine rule.frame.toList ∧
      (Conveys rule.frame.toList (enteredRule form.id form.executable
        (Text.toAsciiLowercase form.verdict) form.port) ↔ Text.IsWord form.executable)) ∧
    (validateNewRule id executable verdict port = .ok rule →
      (Conveys rule.frame.toList (enteredRule (trimmed id) (trimmed executable) verdict.asStr
        (trimmed port)) ↔ Text.IsWord (trimmed executable))) ∧
    (parseCommand arguments = some command →
      (Conveys (commandFrame command).toList (enteredRequest arguments) ↔
        Sendable arguments)) := by
  refine ⟨fun hkeys hcommand ↦ ?_, fun hvalid ↦ ?_, fun hcommand ↦
    conveys_parseCommand_iff hcommand⟩
  · obtain ⟨hentered, hexecutable, hverdict⟩ := AddRuleForm.of_toCommand hcommand
    rw [hentered, ← hexecutable]
    refine ⟨oneLine_frame (fun hnewline ↦ ?_) hverdict, conveys_frame_iff hverdict⟩
    rw [hexecutable] at hnewline
    have hcontrol := AddRuleForm.printable_of_typeKeys hkeys form.executable
      (by simp [AddRuleForm.texts]) '\n' hnewline
    exact absurd hcontrol (by decide)
  · obtain ⟨hentered, hexecutable, hverdict⟩ := of_validateNewRule hvalid
    rw [hentered, ← hexecutable]
    exact conveys_frame_iff hverdict

/-- The keys for rule 7 about an executable, with the verdict and the port that the form starts
with. -/
def ruleKeys (executable : String) : List AddFormKey :=
  [.char '7', .tab] ++ executable.toList.map .char

theorem curl_requests_conveyed :
    Conveys (NewRule.mk 7 "/usr/bin/curl" "deny" 443).frame.toList
        (some (.ruleAdd 7 "/usr/bin/curl" "deny" 443)) ∧
      Conveys (commandFrame "rule-add 7 /usr/bin/curl deny 443").toList
        (some (.ruleAdd 7 "/usr/bin/curl" "deny" 443)) := by
  obtain ⟨hterminal, _, hline⟩ := entered_requests_conveyed_iff (ruleKeys "/usr/bin/curl")
    ⟨"7", "/usr/bin/curl", "deny", "443", .executable⟩ "7" "/usr/bin/curl" "443" .deny
    ⟨7, "/usr/bin/curl", "deny", 443⟩ ["rules", "add", "7", "/usr/bin/curl", "deny", "443"]
    "rule-add 7 /usr/bin/curl deny 443"
  constructor
  · exact (hterminal (by decide +kernel) (by rfl)).2.mpr (by decide +kernel)
  · exact (hline (by decide)).mpr ⟨by decide, by decide⟩

/-- A rule for an executable with a space that the form of the terminal client accepts is refused by
the daemon, and arguments that `interfirectl` accepts are read as a rule for another executable. -/
theorem spaced_requests_misread :
    (∃ form, AddRuleForm.typeKeys (ruleKeys "/opt/my app") = some form ∧
      form.toCommand = .ok ⟨7, "/opt/my app", "deny", 443⟩) ∧
      Request.parse (NewRule.mk 7 "/opt/my app" "deny" 443).frame.toList = .error .malformed ∧
      parseCommand ["rules", "add", "7", "/bin/sh allow", "", "443"] =
        some "rule-add 7 /bin/sh allow  443" ∧
      enteredRequest ["rules", "add", "7", "/bin/sh allow", "", "443"] =
        some (.ruleAdd 7 "/bin/sh allow" "" 443) ∧
      Request.parse (commandFrame "rule-add 7 /bin/sh allow  443").toList =
        .ok (.ruleAdd 7 "/bin/sh" "allow" 443) ∧
      ¬ Conveys (commandFrame "rule-add 7 /bin/sh allow  443").toList
        (enteredRequest ["rules", "add", "7", "/bin/sh allow", "", "443"]) := by
  have hparse : Request.parse (commandFrame "rule-add 7 /bin/sh allow  443").toList =
      .ok (.ruleAdd 7 "/bin/sh" "allow" 443) := by decide
  have hentered : enteredRequest ["rules", "add", "7", "/bin/sh allow", "", "443"] =
      some (.ruleAdd 7 "/bin/sh allow" "" 443) := by decide
  refine ⟨⟨⟨"7", "/opt/my app", "deny", "443", .executable⟩, by decide, by rfl⟩,
    by decide, by decide, hentered, hparse, ?_⟩
  rintro ⟨_, request, hrequest, hread⟩
  rw [hentered] at hrequest
  obtain rfl := Option.some.inj hrequest
  rw [hparse] at hread
  exact absurd hread (by decide)

end InterFire
