import InterFire.Library.KeyValue
import InterFire.PromptFrames

/-!
# Responses of keys and values

`DaemonStatus::parse`, `NetworkStatus::parse` and `StatsSummary::parse` of `crates/interfire-proto`.
Each checks the two leading words and then reads the tokens of the line one by one, testing the
prefixes of its keys in turn and passing over a token with an unknown key. The three are one
definition, `parseKeyValues`, at a label and a list of readers.

`key_value_responses_read_back`: a response is read as the body it was written from, in whatever
order its tokens come and whatever tokens with unknown keys are among them.
-/

set_option autoImplicit false
set_option relaxedAutoImplicit false

namespace InterFire

open KeyValue

/-! ### The readers of the three responses -/

/-- Read the words of a frame: the version, the label and the tokens. -/
def parseKeyValues {σ : Type} (label : String) (readers : List (Reader ProtocolError σ))
    (initial : σ) (frame : List Char) : Except ProtocolError σ :=
  match Text.words (PromptRow.trimEnd frame) with
  | [] => .error .malformed
  | version :: fields =>
    if version ≠ "v1" then
      .error (if version.toList.head? = some 'v' then .unsupportedVersion else .malformed)
    else if fields.head? ≠ some label then .error .malformed
    else readTokens .malformed readers fields.tail initial

/-- A key whose value is kept as it is. -/
def textReader {σ : Type} (key : String) (keep : String → σ → σ) : Reader ProtocolError σ :=
  .decoding key .ok keep

/-- A number below a bound. -/
def readNumber (bound : ℕ) (value : String) : Except ProtocolError ℕ :=
  match Text.parseUnsigned bound value.toList with
  | some number => .ok number
  | none => .error .malformed

/-- A key whose value is a number below a bound. -/
def numberReader {σ : Type} (key : String) (bound : ℕ) (keep : ℕ → σ → σ) :
    Reader ProtocolError σ :=
  .decoding key (readNumber bound) keep

/-- A key that has to be there. -/
def required {α : Type} : Option α → Except ProtocolError α
  | some value => .ok value
  | none => .error .malformed

structure DaemonStatus where
  enforcement : String
  observation : String
  traffic : String
  trafficMachine : String
  trafficUser : String
  trafficEffective : String
  ipcVersion : UInt16
  pid : Option UInt32
  rssKib : Option UInt64
  cpuJiffies : Option UInt64
  deriving DecidableEq, Repr

namespace DaemonStatus

/-- What is read so far. -/
structure Fields where
  enforcement : Option String := none
  observation : Option String := none
  traffic : Option String := none
  trafficMachine : Option String := none
  trafficUser : Option String := none
  trafficEffective : Option String := none
  ipcVersion : Option UInt16 := none
  pid : Option UInt32 := none
  rssKib : Option UInt64 := none
  cpuJiffies : Option UInt64 := none

def readers : List (Reader ProtocolError Fields) :=
  [textReader "enforcement" fun value acc ↦ { acc with enforcement := some value },
    textReader "observation" fun value acc ↦ { acc with observation := some value },
    textReader "traffic_machine" fun value acc ↦ { acc with trafficMachine := some value },
    textReader "traffic_user" fun value acc ↦ { acc with trafficUser := some value },
    textReader "traffic_effective" fun value acc ↦ { acc with trafficEffective := some value },
    textReader "traffic" fun value acc ↦ { acc with traffic := some value },
    numberReader "ipc_version" (2 ^ 16) fun number acc ↦
      { acc with ipcVersion := some (UInt16.ofNat number) },
    numberReader "pid" (2 ^ 32) fun number acc ↦ { acc with pid := some (UInt32.ofNat number) },
    numberReader "rss_kib" (2 ^ 64) fun number acc ↦
      { acc with rssKib := some (UInt64.ofNat number) },
    numberReader "cpu_jiffies" (2 ^ 64) fun number acc ↦
      { acc with cpuJiffies := some (UInt64.ofNat number) }]

/-- The status of the fields. The traffic of an older daemon is open. -/
def ofFields (fields : Fields) : Except ProtocolError DaemonStatus := do
  let traffic := fields.traffic.getD "open"
  let enforcement ← required fields.enforcement
  let observation ← required fields.observation
  let ipcVersion ← required fields.ipcVersion
  .ok
    { enforcement, observation, traffic
      trafficMachine := fields.trafficMachine.getD "open"
      trafficUser := fields.trafficUser.getD "open"
      trafficEffective := fields.trafficEffective.getD traffic
      ipcVersion
      pid := fields.pid
      rssKib := fields.rssKib
      cpuJiffies := fields.cpuJiffies }

def parse (frame : List Char) : Except ProtocolError DaemonStatus :=
  parseKeyValues "status" readers {} frame >>= ofFields

end DaemonStatus

def NetworkTableState.parse : String → Except ProtocolError NetworkTableState
  | "missing" => .ok .missing
  | "installed" => .ok .installed
  | "incomplete" => .ok .incomplete
  | _ => .error .malformed

structure NetworkStatus where
  table : String
  queue : UInt16
  state : NetworkTableState
  rule : String
  deriving DecidableEq, Repr

namespace NetworkStatus

/-- What is read so far. -/
structure Fields where
  table : Option String := none
  queue : Option UInt16 := none
  state : Option NetworkTableState := none
  rule : Option String := none

def readers : List (Reader ProtocolError Fields) :=
  [textReader "table" fun value acc ↦ { acc with table := some value },
    numberReader "queue" (2 ^ 16) fun number acc ↦
      { acc with queue := some (UInt16.ofNat number) },
    .decoding "state" NetworkTableState.parse fun state acc ↦ { acc with state := some state },
    textReader "rule" fun value acc ↦ { acc with rule := some value }]

def ofFields (fields : Fields) : Except ProtocolError NetworkStatus := do
  let table ← required fields.table
  let queue ← required fields.queue
  let state ← required fields.state
  let rule ← required fields.rule
  .ok { table, queue, state, rule }

def parse (frame : List Char) : Except ProtocolError NetworkStatus :=
  parseKeyValues "network" readers {} frame >>= ofFields

end NetworkStatus

structure StatsSummary where
  connections : UInt64
  denied : UInt64
  uptimeSecs : UInt64
  rules : UInt64
  version : String
  git : String
  deriving DecidableEq, Repr

namespace StatsSummary

/-- What is read so far. -/
structure Fields where
  connections : Option UInt64 := none
  denied : Option UInt64 := none
  uptimeSecs : Option UInt64 := none
  rules : Option UInt64 := none
  version : Option String := none
  git : Option String := none

def readers : List (Reader ProtocolError Fields) :=
  [numberReader "connections" (2 ^ 64) fun number acc ↦
      { acc with connections := some (UInt64.ofNat number) },
    numberReader "denied" (2 ^ 64) fun number acc ↦
      { acc with denied := some (UInt64.ofNat number) },
    numberReader "uptime_secs" (2 ^ 64) fun number acc ↦
      { acc with uptimeSecs := some (UInt64.ofNat number) },
    numberReader "rules" (2 ^ 64) fun number acc ↦
      { acc with rules := some (UInt64.ofNat number) },
    textReader "version" fun value acc ↦ { acc with version := some value },
    textReader "git" fun value acc ↦ { acc with git := some value }]

/-- The summary of the fields. The version and the revision may be missing. -/
def ofFields (fields : Fields) : Except ProtocolError StatsSummary := do
  let connections ← required fields.connections
  let denied ← required fields.denied
  let uptimeSecs ← required fields.uptimeSecs
  let rules ← required fields.rules
  .ok
    { connections, denied, uptimeSecs, rules
      version := fields.version.getD ""
      git := fields.git.getD "" }

def parse (frame : List Char) : Except ProtocolError StatsSummary :=
  parseKeyValues "stats-summary" readers {} frame >>= ofFields

end StatsSummary

/-! ### Lines of tokens -/

/-- A text without white space. -/
def Solid (text : String) : Prop :=
  ∀ character ∈ text.toList, Text.isWhitespace character = false

instance (text : String) : Decidable (Solid text) :=
  List.decidableBAll (fun character ↦ Text.isWhitespace character = false) text.toList

/-- The frame of a label and a line of tokens. -/
def keyValueFrame (label : String) (line : List String) : List Char :=
  Text.join ' ' (("v1" :: label :: line).map String.toList) ++ ['\n']

/-- The line has the known tokens and tokens with unknown keys, in any order. -/
def LineOf {σ : Type} (readers : List (Reader ProtocolError σ)) (known line : List String) : Prop :=
  ∃ extra : List String, line.Perm (known ++ extra) ∧
    ∀ token ∈ extra, Text.IsWord token ∧ '=' ∈ token.toList ∧
      tokenKey token ∉ readers.map Reader.key

theorem LineOf.refl {σ : Type} (readers : List (Reader ProtocolError σ)) (known : List String) :
    LineOf readers known known :=
  ⟨[], by simp, nofun⟩

theorem isWord_token {key value : String} (hkey : Solid key) (hvalue : Solid value) :
    Text.IsWord (token key value) := by
  rw [Text.IsWord, toList_token]
  refine ⟨by simp, fun character hmem ↦ ?_⟩
  rcases List.mem_append.mp hmem with hleft | hright
  · exact hkey character hleft
  · rcases List.mem_cons.mp hright with rfl | hvalue'
    · decide
    · exact hvalue character hvalue'

theorem solid_decimal (value : ℕ) : Solid (decimal value) := by
  intro character hmem
  have hdigits : (decimal value).toList = Nat.toDigits 10 value := Nat.toList_repr
  rw [hdigits] at hmem
  exact Text.not_isWhitespace_of_mem_toDigits hmem

/-- A frame is read as the tokens of its line. Assumes: the label and the tokens are words. -/
theorem parseKeyValues_keyValueFrame {σ : Type} {label : String} {line : List String}
    (hlabel : Text.IsWord label) (hline : ∀ token ∈ line, Text.IsWord token)
    (readers : List (Reader ProtocolError σ)) (initial : σ) :
    parseKeyValues label readers initial (keyValueFrame label line) =
      readTokens .malformed readers line initial := by
  have hwords : ∀ word ∈ "v1" :: label :: line, Text.IsWord word := by
    intro word hword
    rcases List.mem_cons.mp hword with rfl | hrest
    · decide
    · rcases List.mem_cons.mp hrest with rfl | htoken
      · exact hlabel
      · exact hline word htoken
  have hlast : ∀ last, (Text.join ' ' (("v1" :: label :: line).map String.toList)).getLast? =
      some last → ¬ BreaksLine last := by
    intro last hlast hbreaks
    have hspace : Text.isWhitespace last = true := by
      rcases hbreaks with rfl | rfl <;> decide
    rcases Text.mem_of_mem_join (List.mem_of_getLast? hlast) with rfl | ⟨text, htext, hmem⟩
    · rcases hbreaks with heq | heq <;> exact absurd heq (by decide)
    · obtain ⟨word, hword, rfl⟩ := List.mem_map.mp htext
      rw [(hwords word hword).2 last hmem] at hspace
      cases hspace
  rw [parseKeyValues, keyValueFrame, PromptRow.trimEnd_append hlast,
    Text.words_join_of_isWord hwords]
  simp

/-- Readers of distinct words whose changes commute. -/
structure WellFormed {σ : Type} (readers : List (Reader ProtocolError σ)) : Prop where
  distinct : Distinct readers
  independent : Independent readers
  solid : ∀ reader ∈ readers, Solid reader.key

/-- A line with the tokens of bindings makes their changes. Assumes: the readers are well formed and
read the bindings, whose keys are distinct and whose values have no white space, and the label is a
word. -/
theorem parseKeyValues_lineOf {σ : Type} {label : String}
    {readers : List (Reader ProtocolError σ)} (hreaders : WellFormed readers)
    (hlabel : Text.IsWord label) {bindings : List (Binding σ)}
    (hbound : ∀ binding ∈ bindings, binding.BoundBy readers)
    (hnodup : (bindings.map Binding.key).Nodup)
    (hvalues : ∀ binding ∈ bindings, Solid binding.value) {line : List String}
    (hline : LineOf readers (bindings.map Binding.token) line) (initial : σ) :
    parseKeyValues label readers initial (keyValueFrame label line) =
      .ok (bindings.foldl (fun acc binding ↦ binding.change acc) initial) := by
  obtain ⟨extra, hperm, hextra⟩ := hline
  have hall : ∀ token ∈ line, Text.IsWord token := by
    intro token htoken
    rcases List.mem_append.mp (hperm.mem_iff.mp htoken) with hin | hout
    · obtain ⟨binding, hbinding, rfl⟩ := List.mem_map.mp hin
      obtain ⟨reader, hmem, hkey, _⟩ := hbound binding hbinding
      exact isWord_token (hkey ▸ hreaders.solid reader hmem) (hvalues binding hbinding)
    · exact (hextra token hout).1
  rw [parseKeyValues_keyValueFrame hlabel hall]
  exact readTokens_of_bindings hreaders.distinct hreaders.independent hbound hnodup
    (fun token htoken ↦ (hextra token htoken).2) hperm initial

/-! ### What the responses bind -/

/-- A numeral is read as its number. Assumes: the number is below the bound. -/
theorem readNumber_decimal {bound number : ℕ} (hlt : number < bound) :
    readNumber bound (decimal number) = .ok number := by
  have hdigits : (decimal number).toList = Nat.toDigits 10 number := Nat.toList_repr
  rw [readNumber, hdigits, Text.parseUnsigned_toDigits hlt]

/-- A binding is read by the reader at a position. Assumes: the reader has the key and reads the value
as the change. -/
theorem boundBy_at {σ : Type} {readers : List (Reader ProtocolError σ)} {binding : Binding σ}
    (index : ℕ) {reader : Reader ProtocolError σ} (hget : readers[index]? = some reader)
    (hkey : reader.key = binding.key) (hread : reader.read binding.value = .ok binding.change) :
    binding.BoundBy readers :=
  ⟨reader, List.mem_of_getElem? hget, hkey, hread⟩

/-- The binding of a number is read by the reader at a position. Assumes: it is the reader of a number
below a bound, and the number is. -/
theorem boundBy_number_at {σ : Type} {readers : List (Reader ProtocolError σ)} {key : String}
    {change : σ → σ} (index : ℕ) {bound number : ℕ} {keep : ℕ → σ → σ} (hlt : number < bound)
    (hget : readers[index]? = some (numberReader key bound keep)) (hchange : keep number = change) :
    Binding.BoundBy readers ⟨key, decimal number, change⟩ := by
  refine boundBy_at index hget rfl ?_
  change (readNumber bound (decimal number)).map keep = .ok change
  rw [readNumber_decimal hlt, ← hchange]
  rfl

namespace DaemonStatus

theorem wellFormed_readers : WellFormed readers := by
  refine ⟨⟨by decide, by decide⟩, independent_of_pairwise ?_, by decide⟩
  unfold readers
  repeat' first
    | exact List.Pairwise.nil
    | exact List.forall_mem_nil _
    | refine List.Pairwise.cons ?_ ?_
    | refine List.forall_mem_cons.mpr ⟨commutes_decoding (by intros; rfl), ?_⟩

/-- The tokens of a body, in the order in which they are written. -/
def tokens (body : StatusBody) : List String :=
  [token "enforcement" body.enforcement, token "observation" body.observation,
    token "traffic" body.traffic, token "traffic_machine" body.trafficMachine,
    token "traffic_user" body.trafficUser, token "traffic_effective" body.trafficEffective,
    token "ipc_version" (decimal body.ipcVersion.toNat), token "pid" (decimal body.pid.toNat),
    token "rss_kib" (decimal body.rssKib.toNat),
    token "cpu_jiffies" (decimal body.cpuJiffies.toNat)]

/-- What the tokens change. -/
def bindings (body : StatusBody) : List (Binding Fields) :=
  [⟨"enforcement", body.enforcement, fun acc ↦ { acc with enforcement := some body.enforcement }⟩,
    ⟨"observation", body.observation, fun acc ↦ { acc with observation := some body.observation }⟩,
    ⟨"traffic", body.traffic, fun acc ↦ { acc with traffic := some body.traffic }⟩,
    ⟨"traffic_machine", body.trafficMachine,
      fun acc ↦ { acc with trafficMachine := some body.trafficMachine }⟩,
    ⟨"traffic_user", body.trafficUser,
      fun acc ↦ { acc with trafficUser := some body.trafficUser }⟩,
    ⟨"traffic_effective", body.trafficEffective,
      fun acc ↦ { acc with trafficEffective := some body.trafficEffective }⟩,
    ⟨"ipc_version", decimal body.ipcVersion.toNat,
      fun acc ↦ { acc with ipcVersion := some (UInt16.ofNat body.ipcVersion.toNat) }⟩,
    ⟨"pid", decimal body.pid.toNat,
      fun acc ↦ { acc with pid := some (UInt32.ofNat body.pid.toNat) }⟩,
    ⟨"rss_kib", decimal body.rssKib.toNat,
      fun acc ↦ { acc with rssKib := some (UInt64.ofNat body.rssKib.toNat) }⟩,
    ⟨"cpu_jiffies", decimal body.cpuJiffies.toNat,
      fun acc ↦ { acc with cpuJiffies := some (UInt64.ofNat body.cpuJiffies.toNat) }⟩]

theorem boundBy_of_mem_bindings {body : StatusBody} :
    ∀ binding ∈ bindings body, binding.BoundBy readers := by
  simp only [bindings, List.forall_mem_cons]
  exact ⟨boundBy_at 0 rfl rfl rfl, boundBy_at 1 rfl rfl rfl, boundBy_at 5 rfl rfl rfl,
    boundBy_at 2 rfl rfl rfl, boundBy_at 3 rfl rfl rfl, boundBy_at 4 rfl rfl rfl,
    boundBy_number_at 6 body.ipcVersion.toNat_lt rfl rfl,
    boundBy_number_at 7 body.pid.toNat_lt rfl rfl,
    boundBy_number_at 8 body.rssKib.toNat_lt rfl rfl,
    boundBy_number_at 9 body.cpuJiffies.toNat_lt rfl rfl, List.forall_mem_nil _⟩

/-- A client reads the status that was written. -/
def ofBody (body : StatusBody) : DaemonStatus :=
  { enforcement := body.enforcement
    observation := body.observation
    traffic := body.traffic
    trafficMachine := body.trafficMachine
    trafficUser := body.trafficUser
    trafficEffective := body.trafficEffective
    ipcVersion := body.ipcVersion
    pid := some body.pid
    rssKib := some body.rssKib
    cpuJiffies := some body.cpuJiffies }

/-- The texts of a body. -/
def texts (body : StatusBody) : List String :=
  [body.enforcement, body.observation, body.traffic, body.trafficMachine, body.trafficUser,
    body.trafficEffective]

theorem solid_of_mem_bindings {body : StatusBody} (hsolid : ∀ text ∈ texts body, Solid text) :
    ∀ binding ∈ bindings body, Solid binding.value := by
  simp only [texts, List.forall_mem_cons] at hsolid
  obtain ⟨henforcement, hobservation, htraffic, hmachine, huser, heffective, _⟩ := hsolid
  simp only [bindings, List.forall_mem_cons]
  exact ⟨henforcement, hobservation, htraffic, hmachine, huser, heffective, solid_decimal _,
    solid_decimal _, solid_decimal _, solid_decimal _, List.forall_mem_nil _⟩

theorem toList_encode (body : StatusBody) :
    (Response.status body).encode.toList = keyValueFrame "status" (tokens body) := by
  have hencode : (Response.status body).encode =
      "v1 status enforcement=" ++ body.enforcement ++ " observation=" ++ body.observation ++
        " traffic=" ++ body.traffic ++ " traffic_machine=" ++ body.trafficMachine ++
        " traffic_user=" ++ body.trafficUser ++ " traffic_effective=" ++ body.trafficEffective ++
        " ipc_version=" ++ decimal body.ipcVersion.toNat ++ " pid=" ++ decimal body.pid.toNat ++
        " rss_kib=" ++ decimal body.rssKib.toNat ++
        " cpu_jiffies=" ++ decimal body.cpuJiffies.toNat ++ "\n" := rfl
  rw [hencode]
  simp [keyValueFrame, tokens, token, Text.join]

/-- A status is read back. Assumes: the texts have no white space, and the line has the tokens of the
body. -/
theorem parse_lineOf {body : StatusBody} (hsolid : ∀ text ∈ texts body, Solid text)
    {line : List String} (hline : LineOf readers (tokens body) line) :
    parse (keyValueFrame "status" line) = .ok (ofBody body) := by
  have hfields := parseKeyValues_lineOf wellFormed_readers
    (by decide : Text.IsWord "status") (@boundBy_of_mem_bindings body)
    (by simp [bindings]) (solid_of_mem_bindings hsolid) hline {}
  rw [parse, hfields]
  simp only [bindings, List.foldl_cons, List.foldl_nil, UInt16.ofNat_toNat, UInt32.ofNat_toNat,
    UInt64.ofNat_toNat]
  rfl

end DaemonStatus

namespace NetworkStatus

theorem wellFormed_readers : WellFormed readers := by
  refine ⟨⟨by decide, by decide⟩, independent_of_pairwise ?_, by decide⟩
  unfold readers
  repeat' first
    | exact List.Pairwise.nil
    | exact List.forall_mem_nil _
    | refine List.Pairwise.cons ?_ ?_
    | refine List.forall_mem_cons.mpr ⟨commutes_decoding (by intros; rfl), ?_⟩

/-- The tokens of a body, in the order in which they are written. -/
def tokens (body : NetworkStatusBody) : List String :=
  [token "table" body.table, token "queue" (decimal body.queue.toNat),
    token "state" body.state.asStr, token "rule" body.rule]

/-- What the tokens change. -/
def bindings (body : NetworkStatusBody) : List (Binding Fields) :=
  [⟨"table", body.table, fun acc ↦ { acc with table := some body.table }⟩,
    ⟨"queue", decimal body.queue.toNat,
      fun acc ↦ { acc with queue := some (UInt16.ofNat body.queue.toNat) }⟩,
    ⟨"state", body.state.asStr, fun acc ↦ { acc with state := some body.state }⟩,
    ⟨"rule", body.rule, fun acc ↦ { acc with rule := some body.rule }⟩]

theorem boundBy_of_mem_bindings {body : NetworkStatusBody} :
    ∀ binding ∈ bindings body, binding.BoundBy readers := by
  have hstate : NetworkTableState.parse body.state.asStr = .ok body.state := by
    cases body.state <;> rfl
  simp only [bindings, List.forall_mem_cons]
  exact ⟨boundBy_at 0 rfl rfl rfl, boundBy_number_at 1 body.queue.toNat_lt rfl rfl,
    boundBy_at 2 rfl rfl (congrArg (Except.map _) hstate), boundBy_at 3 rfl rfl rfl,
    List.forall_mem_nil _⟩

/-- A client reads the network status that was written. -/
def ofBody (body : NetworkStatusBody) : NetworkStatus :=
  { table := body.table, queue := body.queue, state := body.state, rule := body.rule }

theorem solid_of_mem_bindings {body : NetworkStatusBody} (htable : Solid body.table)
    (hrule : Solid body.rule) : ∀ binding ∈ bindings body, Solid binding.value := by
  have hstate : Solid body.state.asStr := by
    cases body.state <;> decide
  simp only [bindings, List.forall_mem_cons]
  exact ⟨htable, solid_decimal _, hstate, hrule, List.forall_mem_nil _⟩

theorem toList_encode (body : NetworkStatusBody) :
    (Response.network body).encode.toList = keyValueFrame "network" (tokens body) := by
  have hencode : (Response.network body).encode =
      "v1 network table=" ++ body.table ++ " queue=" ++ decimal body.queue.toNat ++
        " state=" ++ body.state.asStr ++ " rule=" ++ body.rule ++ "\n" := rfl
  rw [hencode]
  simp [keyValueFrame, tokens, token, Text.join]

/-- A network status is read back. Assumes: the texts have no white space, and the line has the tokens
of the body. -/
theorem parse_lineOf {body : NetworkStatusBody} (htable : Solid body.table)
    (hrule : Solid body.rule) {line : List String} (hline : LineOf readers (tokens body) line) :
    parse (keyValueFrame "network" line) = .ok (ofBody body) := by
  have hfields := parseKeyValues_lineOf wellFormed_readers
    (by decide : Text.IsWord "network") (@boundBy_of_mem_bindings body)
    (by simp [bindings]) (solid_of_mem_bindings htable hrule) hline {}
  rw [parse, hfields]
  simp only [bindings, List.foldl_cons, List.foldl_nil, UInt16.ofNat_toNat]
  rfl

end NetworkStatus

namespace StatsSummary

theorem wellFormed_readers : WellFormed readers := by
  refine ⟨⟨by decide, by decide⟩, independent_of_pairwise ?_, by decide⟩
  unfold readers
  repeat' first
    | exact List.Pairwise.nil
    | exact List.forall_mem_nil _
    | refine List.Pairwise.cons ?_ ?_
    | refine List.forall_mem_cons.mpr ⟨commutes_decoding (by intros; rfl), ?_⟩

/-- The tokens of a body, in the order in which they are written. -/
def tokens (body : StatsSummaryBody) : List String :=
  [token "connections" (decimal body.connections.toNat),
    token "denied" (decimal body.denied.toNat),
    token "uptime_secs" (decimal body.uptimeSecs.toNat), token "rules" (decimal body.rules.toNat),
    token "version" body.version, token "git" body.git]

/-- What the tokens change. -/
def bindings (body : StatsSummaryBody) : List (Binding Fields) :=
  [⟨"connections", decimal body.connections.toNat,
      fun acc ↦ { acc with connections := some (UInt64.ofNat body.connections.toNat) }⟩,
    ⟨"denied", decimal body.denied.toNat,
      fun acc ↦ { acc with denied := some (UInt64.ofNat body.denied.toNat) }⟩,
    ⟨"uptime_secs", decimal body.uptimeSecs.toNat,
      fun acc ↦ { acc with uptimeSecs := some (UInt64.ofNat body.uptimeSecs.toNat) }⟩,
    ⟨"rules", decimal body.rules.toNat,
      fun acc ↦ { acc with rules := some (UInt64.ofNat body.rules.toNat) }⟩,
    ⟨"version", body.version, fun acc ↦ { acc with version := some body.version }⟩,
    ⟨"git", body.git, fun acc ↦ { acc with git := some body.git }⟩]

theorem boundBy_of_mem_bindings {body : StatsSummaryBody} :
    ∀ binding ∈ bindings body, binding.BoundBy readers := by
  simp only [bindings, List.forall_mem_cons]
  exact ⟨boundBy_number_at 0 body.connections.toNat_lt rfl rfl,
    boundBy_number_at 1 body.denied.toNat_lt rfl rfl,
    boundBy_number_at 2 body.uptimeSecs.toNat_lt rfl rfl,
    boundBy_number_at 3 body.rules.toNat_lt rfl rfl, boundBy_at 4 rfl rfl rfl,
    boundBy_at 5 rfl rfl rfl, List.forall_mem_nil _⟩

/-- A client reads the summary that was written. -/
def ofBody (body : StatsSummaryBody) : StatsSummary :=
  { connections := body.connections
    denied := body.denied
    uptimeSecs := body.uptimeSecs
    rules := body.rules
    version := body.version
    git := body.git }

theorem solid_of_mem_bindings {body : StatsSummaryBody} (hversion : Solid body.version)
    (hgit : Solid body.git) : ∀ binding ∈ bindings body, Solid binding.value := by
  simp only [bindings, List.forall_mem_cons]
  exact ⟨solid_decimal _, solid_decimal _, solid_decimal _, solid_decimal _, hversion, hgit,
    List.forall_mem_nil _⟩

theorem toList_encode (body : StatsSummaryBody) :
    (Response.statsSummary body).encode.toList = keyValueFrame "stats-summary" (tokens body) := by
  have hencode : (Response.statsSummary body).encode =
      "v1 stats-summary connections=" ++ decimal body.connections.toNat ++
        " denied=" ++ decimal body.denied.toNat ++
        " uptime_secs=" ++ decimal body.uptimeSecs.toNat ++
        " rules=" ++ decimal body.rules.toNat ++
        " version=" ++ body.version ++ " git=" ++ body.git ++ "\n" := rfl
  rw [hencode]
  simp [keyValueFrame, tokens, token, Text.join]

/-- A summary is read back. Assumes: the texts have no white space, and the line has the tokens of
the body. -/
theorem parse_lineOf {body : StatsSummaryBody} (hversion : Solid body.version)
    (hgit : Solid body.git) {line : List String} (hline : LineOf readers (tokens body) line) :
    parse (keyValueFrame "stats-summary" line) = .ok (ofBody body) := by
  have hfields := parseKeyValues_lineOf wellFormed_readers
    (by decide : Text.IsWord "stats-summary") (@boundBy_of_mem_bindings body)
    (by simp [bindings]) (solid_of_mem_bindings hversion hgit) hline {}
  rw [parse, hfields]
  simp only [bindings, List.foldl_cons, List.foldl_nil, UInt64.ofNat_toNat]
  rfl

end StatsSummary

/-- The three responses of keys and values are read as the bodies they were written from, and so is
every line with the tokens of a body in some order among tokens with unknown keys. Assumes: the texts
of the bodies have no white space. -/
theorem key_value_responses_read_back :
    (∀ body : StatusBody, (∀ text ∈ DaemonStatus.texts body, Solid text) →
      DaemonStatus.parse (Response.status body).encode.toList = .ok (.ofBody body) ∧
      ∀ line, LineOf DaemonStatus.readers (DaemonStatus.tokens body) line →
        DaemonStatus.parse (keyValueFrame "status" line) = .ok (.ofBody body)) ∧
    (∀ body : NetworkStatusBody, Solid body.table → Solid body.rule →
      NetworkStatus.parse (Response.network body).encode.toList = .ok (.ofBody body) ∧
      ∀ line, LineOf NetworkStatus.readers (NetworkStatus.tokens body) line →
        NetworkStatus.parse (keyValueFrame "network" line) = .ok (.ofBody body)) ∧
    ∀ body : StatsSummaryBody, Solid body.version → Solid body.git →
      StatsSummary.parse (Response.statsSummary body).encode.toList = .ok (.ofBody body) ∧
      ∀ line, LineOf StatsSummary.readers (StatsSummary.tokens body) line →
        StatsSummary.parse (keyValueFrame "stats-summary" line) = .ok (.ofBody body) := by
  refine ⟨fun body hsolid ↦ ⟨?_, fun line hline ↦ DaemonStatus.parse_lineOf hsolid hline⟩,
    fun body htable hrule ↦ ⟨?_, fun line hline ↦ NetworkStatus.parse_lineOf htable hrule hline⟩,
    fun body hversion hgit ↦ ⟨?_, fun line hline ↦ StatsSummary.parse_lineOf hversion hgit hline⟩⟩
  · rw [DaemonStatus.toList_encode]
    exact DaemonStatus.parse_lineOf hsolid (.refl _ _)
  · rw [NetworkStatus.toList_encode]
    exact NetworkStatus.parse_lineOf htable hrule (.refl _ _)
  · rw [StatsSummary.toList_encode]
    exact StatsSummary.parse_lineOf hversion hgit (.refl _ _)

/-- A line of a newer daemon, with the tokens of a network status backwards around one that the client
does not know. -/
theorem newer_network_line_read_back :
    NetworkStatus.parse (keyValueFrame "network"
        ["rule=none", "state=missing", "tables=2", "queue=4242", "table=interfire"]) =
      .ok ⟨"interfire", 4242, .missing, "none"⟩ := by
  have hline : LineOf NetworkStatus.readers
      (NetworkStatus.tokens ⟨"interfire", 4242, .missing, "none"⟩)
      ["rule=none", "state=missing", "tables=2", "queue=4242", "table=interfire"] :=
    ⟨["tables=2"], by decide, by decide⟩
  exact (key_value_responses_read_back.2.1 ⟨"interfire", 4242, .missing, "none"⟩
    (by decide) (by decide)).2 _ hline

end InterFire
