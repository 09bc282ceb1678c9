import InterFire.Library.Replace
import InterFire.Proto

/-!
# The list frames of the wire

The rows of `crates/interfire-proto` besides the prompts: `RuleRow`, `ProcessRow` and `StatsRow`,
with their readers and, for the last two, their writers. The readers of the four list frames are one
definition, `parseListFrame`, at a label, a separator and a reader of rows. `parseRows_join` and
`exists_of_parseRows_eq_ok` are the two directions of reading a payload.

A process row and a statistics row escape the fields that a program controls. `escape_field` replaces
the percent sign, the bar and the semicolon one after the other, and `unescape_field` undoes the
three replacements in the opposite order.
-/

set_option autoImplicit false
set_option relaxedAutoImplicit false

namespace InterFire

/-! ### Reading a list -/

/-- Read the rows of a payload. -/
def parseRows {ρ : Type} (separator : Char) (parseRow : List Char → Except ProtocolError ρ)
    (payload : List Char) : Except ProtocolError (List ρ) :=
  if payload = [] then .ok [] else (payload.splitOn separator).mapM parseRow

/-- Rows that are all read give the list of what is read. Assumes: each is read. -/
theorem mapM_eq_ok {α β ε : Type} {read : α → Except ε β} {items : List α} {value : α → β}
    (hread : ∀ item ∈ items, read item = .ok (value item)) :
    items.mapM read = .ok (items.map value) := by
  induction items with
  | nil => rfl
  | cons first rest ih =>
    rw [List.mapM_cons, hread first List.mem_cons_self,
      ih fun item hitem ↦ hread item (List.mem_cons_of_mem first hitem)]
    rfl

/-- What is read from a list of items is read from one of them. Assumes: the items are read, and it
is among what is read. -/
theorem exists_of_mapM_eq_ok {α β ε : Type} {read : α → Except ε β} {items : List α}
    {values : List β} (hread : items.mapM read = .ok values) {value : β} (hvalue : value ∈ values) :
    ∃ item ∈ items, read item = .ok value := by
  induction items generalizing values with
  | nil =>
    obtain rfl : [] = values := Except.ok.inj hread
    cases hvalue
  | cons first rest ih =>
    rw [List.mapM_cons] at hread
    cases hfirst : read first with
    | error code =>
      rw [hfirst] at hread
      cases hread
    | ok head =>
      cases hrest : rest.mapM read with
      | error code =>
        rw [hfirst, hrest] at hread
        cases hread
      | ok tail =>
        rw [hfirst, hrest] at hread
        obtain rfl : head :: tail = values := Except.ok.inj hread
        rcases List.mem_cons.mp hvalue with rfl | hlater
        · exact ⟨first, List.mem_cons_self, hfirst⟩
        · obtain ⟨item, hitem, hvalue⟩ := ih hrest hlater
          exact ⟨item, List.mem_cons_of_mem first hitem, hvalue⟩

/-- Rows that are joined are read one by one. Assumes: no row is empty or contains the separator,
and each is read as its value. -/
theorem parseRows_join {ρ : Type} {separator : Char}
    {parseRow : List Char → Except ProtocolError ρ} {α : Type} {items : List α}
    {encode : α → List Char} {value : α → ρ}
    (hne : ∀ item ∈ items, encode item ≠ [])
    (hseparator : ∀ item ∈ items, separator ∉ encode item)
    (hread : ∀ item ∈ items, parseRow (encode item) = .ok (value item)) :
    parseRows separator parseRow (Text.join separator (items.map encode)) =
      .ok (items.map value) := by
  unfold parseRows
  by_cases hempty : items = []
  · subst hempty
    rfl
  · have hsplit : (Text.join separator (items.map encode)).splitOn separator = items.map encode := by
      refine Text.splitOn_join (by simpa using hempty) fun piece hpiece ↦ ?_
      obtain ⟨item, hitem, rfl⟩ := List.mem_map.mp hpiece
      exact hseparator item hitem
    have hnonempty : Text.join separator (items.map encode) ≠ [] := by
      intro hjoin
      rw [hjoin, List.splitOn_nil] at hsplit
      have hrow : [] ∈ items.map encode := by
        rw [← hsplit]
        exact List.mem_cons_self
      obtain ⟨item, hitem, hrow⟩ := List.mem_map.mp hrow
      exact hne item hitem hrow
    rw [if_neg hnonempty, hsplit, List.mapM_map]
    exact mapM_eq_ok hread

/-- A row that is read comes from a piece of the payload without the separator. Assumes: the payload
is read, and it is one of the rows. -/
theorem exists_of_parseRows_eq_ok {ρ : Type} {separator : Char}
    {parseRow : List Char → Except ProtocolError ρ} {payload : List Char} {rows : List ρ}
    (hread : parseRows separator parseRow payload = .ok rows) {row : ρ} (hrow : row ∈ rows) :
    ∃ piece, separator ∉ piece ∧ parseRow piece = .ok row := by
  unfold parseRows at hread
  split_ifs at hread
  · obtain rfl : [] = rows := Except.ok.inj hread
    cases hrow
  · obtain ⟨piece, hpiece, hread⟩ := exists_of_mapM_eq_ok hread hrow
    refine ⟨piece, fun hmem ↦ ?_, hread⟩
    simpa using Text.not_of_mem_splitOnP hpiece separator hmem

/-- Read a frame: the version, the label and the rows. -/
def parseListFrame {ρ : Type} (label : String) (separator : Char)
    (parseRow : List Char → Except ProtocolError ρ) (frame : List Char) :
    Except ProtocolError (List ρ) :=
  match Text.splitN ' ' 3 (PromptRow.trimEnd frame) with
  | [] => .error .malformed
  | version :: fields =>
    if version ≠ ['v', '1'] then
      .error (if version.head? = some 'v' then .unsupportedVersion else .malformed)
    else if fields.head? ≠ some label.toList then .error .malformed
    else parseRows separator parseRow (fields[1]?.getD [])

/-! ### Rules -/

structure RuleRow where
  id : UInt64
  executable : String
  verdict : String
  port : UInt16
  deriving DecidableEq, Repr

namespace RuleRow

def parseRow (row : List Char) : Except ProtocolError RuleRow :=
  match Text.splitN '|' 4 row with
  | [id, executable, verdict, port] =>
    match Text.parseUnsigned (2 ^ 64) id, Text.parseUnsigned (2 ^ 16) port with
    | some id, some port =>
      .ok ⟨UInt64.ofNat id, String.ofList executable, String.ofList verdict, UInt16.ofNat port⟩
    | _, _ => .error .malformed
  | _ => .error .malformed

def parseFrame (frame : List Char) : Except ProtocolError (List RuleRow) :=
  parseListFrame "rules" ',' parseRow frame

end RuleRow

/-! ### Escaped fields -/

def escapeField (value : String) : String :=
  String.ofList (Text.replaceChar ';' ['%', '3', 'B'] (Text.replaceChar '|' ['%', '7', 'C']
    (Text.replaceChar '%' ['%', '2', '5'] value.toList)))

def unescapeField (value : String) : String :=
  String.ofList (Text.replaceAll ['%', '2', '5'] ['%'] (Text.replaceAll ['%', '7', 'C'] ['|']
    (Text.replaceAll ['%', '3', 'B'] [';'] value.toList)))

/-! ### Processes -/

structure ProcessRow where
  pid : UInt32
  startTicks : UInt64
  uid : UInt32
  executable : String
  cmdline : String
  verdict : String
  ports : String
  deriving DecidableEq, Repr

namespace ProcessRow

def parseRow (row : List Char) : Except ProtocolError ProcessRow :=
  match Text.splitN '|' 7 row with
  | [pid, startTicks, uid, verdict, ports, executable, cmdline] =>
    match Text.parseUnsigned (2 ^ 32) pid, Text.parseUnsigned (2 ^ 64) startTicks,
      Text.parseUnsigned (2 ^ 32) uid with
    | some pid, some startTicks, some uid =>
      .ok
        { pid := UInt32.ofNat pid
          startTicks := UInt64.ofNat startTicks
          uid := UInt32.ofNat uid
          executable := unescapeField (String.ofList executable)
          cmdline := unescapeField (String.ofList cmdline)
          verdict := String.ofList verdict
          ports := String.ofList ports }
    | _, _, _ => .error .malformed
  | _ => .error .malformed

def parseFrame (frame : List Char) : Except ProtocolError (List ProcessRow) :=
  parseListFrame "processes" ';' parseRow frame

def encodeRow (row : ProcessRow) : String :=
  decimal row.pid.toNat ++ "|" ++ decimal row.startTicks.toNat ++ "|" ++ decimal row.uid.toNat ++
    "|" ++ row.verdict ++ "|" ++ row.ports ++ "|" ++ escapeField row.executable ++ "|" ++
    escapeField row.cmdline

end ProcessRow

/-! ### Statistics -/

structure StatsRow where
  key : String
  hits : UInt64
  allow : UInt64
  deny : UInt64
  prompt : UInt64
  deriving DecidableEq, Repr

namespace StatsRow

def parseRow (row : List Char) : Except ProtocolError StatsRow :=
  match Text.splitN '|' 5 row with
  | [key, hits, allow, deny, prompt] =>
    match Text.parseUnsigned (2 ^ 64) hits, Text.parseUnsigned (2 ^ 64) allow,
      Text.parseUnsigned (2 ^ 64) deny, Text.parseUnsigned (2 ^ 64) prompt with
    | some hits, some allow, some deny, some prompt =>
      .ok ⟨unescapeField (String.ofList key), UInt64.ofNat hits, UInt64.ofNat allow,
        UInt64.ofNat deny, UInt64.ofNat prompt⟩
    | _, _, _, _ => .error .malformed
  | _ => .error .malformed

def parseFrame (frame : List Char) (label : String) : Except ProtocolError (List StatsRow) :=
  parseListFrame label ';' parseRow frame

def encodeRow (row : StatsRow) : String :=
  escapeField row.key ++ "|" ++ decimal row.hits.toNat ++ "|" ++ decimal row.allow.toNat ++ "|" ++
    decimal row.deny.toNat ++ "|" ++ decimal row.prompt.toNat

end StatsRow

/-- The five lists of the statistics. -/
inductive StatsKind
  | hosts
  | procs
  | addrs
  | ports
  | users
  deriving DecidableEq, Repr

namespace StatsKind

/-- The label that a client asks for and reads. -/
def label : StatsKind → String
  | hosts => "stats-hosts"
  | procs => "stats-procs"
  | addrs => "stats-addrs"
  | ports => "stats-ports"
  | users => "stats-users"

/-- The response that carries a list. -/
def respond : StatsKind → String → Response
  | hosts => .statsHosts
  | procs => .statsProcs
  | addrs => .statsAddrs
  | ports => .statsPorts
  | users => .statsUsers

end StatsKind

end InterFire
