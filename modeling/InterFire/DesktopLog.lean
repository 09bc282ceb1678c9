import InterFire.AuditClients
import InterFire.Library.Run
import InterFire.Requests

/-!
# The log of the desktop client

The buffer of audit lines (`LogBuffer` of `ui/src/log_buf.rs`), the filter of the lists (`ListFilter`
of `ui/src/filter.rs`) and what the events view draws of them (`events_body` of
`ui/src/stats_view.rs`). The selection is an index: the view draws the row at that index of the
filtered lines as selected, and the message at that index of all lines in the box below.

`wellFormed_run` is what every run keeps: the lines are those of records, and the selection is one of
them.
-/

set_option autoImplicit false
set_option relaxedAutoImplicit false

namespace InterFire

/-! ### The filter -/

def filterHardCap : ℕ := 2000

inductive VerdictFilter
  | all
  | allow
  | deny
  | prompt
  deriving DecidableEq, Repr

/-- Whether a verdict is the one of the filter, in either case. -/
def VerdictFilter.«matches» (filter : VerdictFilter) (verdict : String) : Bool :=
  match filter with
  | all => true
  | allow => Text.toAsciiLowercase verdict = "allow"
  | deny => Text.toAsciiLowercase verdict = "deny"
  | prompt => Text.toAsciiLowercase verdict = "prompt"

inductive ResultLimit
  | preset (count : ℕ)
  | all
  | custom (count : ℕ)
  deriving DecidableEq, Repr

def ResultLimit.effective : ResultLimit → ℕ
  | preset count | custom count => min count filterHardCap
  | all => filterHardCap

structure ListFilter where
  text : String
  verdict : VerdictFilter
  limit : ResultLimit
  deriving DecidableEq, Repr

namespace ListFilter

/-- The text of the filter is part of another one, in either case. -/
def textMatches (filter : ListFilter) (haystack : String) : Bool :=
  filter.text = "" ||
    Decidable.decide ((Text.toAsciiLowercase filter.text).toList <:+:
      (Text.toAsciiLowercase haystack).toList)

/-- A row with such a text and verdict passes. -/
def passes (filter : ListFilter) (row : String × String) : Bool :=
  filter.textMatches row.1 && filter.verdict.matches row.2

/-- The rows that pass, up to the limit, and how many pass. -/
def applyRows {α : Type} (filter : ListFilter) (rows : List α) (predicate : α → String × String) :
    List α × ℕ :=
  let filtered := rows.filter fun row ↦ filter.passes (predicate row)
  (filtered.take filter.limit.effective, filtered.length)

end ListFilter

/-- The first outcome that a message names. -/
def extractOutcome (message : String) : Option String :=
  (Text.words message.toList).findSome? (Request.stripPrefix "outcome=")

/-! ### The buffer -/

structure LogBuffer where
  lines : List String
  selected : ℕ
  subscribed : Bool
  deriving DecidableEq, Repr

namespace LogBuffer

/-- As many lines as a subscriber is kept. -/
def maxAuditLines : ℕ := maxLogRecordsPerSubscriber

def new : LogBuffer := { lines := [], selected := 0, subscribed := false }

def setSubscribed (buffer : LogBuffer) (ready : Bool) : LogBuffer := { buffer with subscribed := ready }

def clampSelection (buffer : LogBuffer) : LogBuffer :=
  if buffer.lines = [] then { buffer with selected := 0 }
  else if buffer.lines.length ≤ buffer.selected then
    { buffer with selected := buffer.lines.length - 1 }
  else buffer

/-- Append the line of a record. The oldest one goes when there are as many as are kept. -/
def pushLine (buffer : LogBuffer) (record : AuditStreamRecord) : LogBuffer :=
  let shifted :=
    if buffer.lines.length = maxAuditLines then
      { buffer with
        lines := buffer.lines.tail
        selected := if 0 < buffer.selected then buffer.selected - 1 else buffer.selected }
    else buffer
  { shifted with lines := shifted.lines ++ [record.logLine] }.clampSelection

def select (buffer : LogBuffer) (index : ℕ) : LogBuffer :=
  if buffer.lines = [] then { buffer with selected := 0 }
  else { buffer with selected := min index (buffer.lines.length - 1) }

/-- The sequence and the message of a line. -/
def parseLine (line : String) : Option (UInt64 × String) :=
  match Text.splitOnce '|' line.toList with
  | (sequence, some message) =>
    (Text.parseUnsigned (2 ^ 64) sequence).map fun sequence ↦
      (UInt64.ofNat sequence, String.ofList message)
  | (_, none) => none

/-- The lines that have a sequence and a message, oldest first. -/
def parsedLines (buffer : LogBuffer) : List (UInt64 × String) := buffer.lines.filterMap parseLine

def selectedIndex (buffer : LogBuffer) : Option ℕ :=
  if buffer.lines = [] then none else some buffer.selected

end LogBuffer

/-! ### The view -/

/-- A row of the events table. -/
structure EventRow where
  sequence : UInt64
  message : String
  selected : Bool
  deriving DecidableEq, Repr

/-- What is drawn of the log: the state of the subscription, the table, and the message of the box
below it. An empty table is drawn as a note. -/
structure EventsBody where
  status : String
  rows : List EventRow
  selectedBox : Option String
  deriving DecidableEq, Repr

/-- The text and the verdict of a line that the filter looks at. -/
def eventFields (line : UInt64 × String) : String × String :=
  (line.2, (extractOutcome line.2).getD "")

def eventsBody (lines : List (UInt64 × String)) (selected : Option ℕ) (subscribed : Bool)
    (filter : ListFilter) : EventsBody :=
  let (shown, total) := filter.applyRows lines eventFields
  let status :=
    if subscribed then
      "audit subscribe: ready  ·  showing " ++ decimal shown.length ++ " of " ++ decimal total
    else
      "audit subscribe: connecting…  ·  showing " ++ decimal shown.length ++ " of " ++ decimal total
  if shown = [] then { status, rows := [], selectedBox := none }
  else
    { status
      rows := shown.mapIdx fun offset line ↦ ⟨line.1, line.2, selected = some offset⟩
      selectedBox := (selected.bind (lines[·]?)).map Prod.snd }

/-- The line of a row. -/
def EventRow.line (row : EventRow) : UInt64 × String := (row.sequence, row.message)

/-- The line of the row that is drawn as selected. -/
def EventsBody.selectedLine (body : EventsBody) : Option (UInt64 × String) :=
  (body.rows.find? EventRow.selected).map EventRow.line

/-- The rows that pass the filter, up to its limit. -/
def shownLines (lines : List (UInt64 × String)) (filter : ListFilter) : List (UInt64 × String) :=
  (filter.applyRows lines eventFields).1

/-- The row at the selected index is the one that is found. -/
theorem find?_mapIdx_selected (shown : List (UInt64 × String)) (index : ℕ) :
    ((shown.mapIdx fun offset line ↦
        (⟨line.1, line.2, some index = some offset⟩ : EventRow)).find? EventRow.selected).map
      EventRow.line = shown[index]? := by
  induction shown generalizing index with
  | nil => rfl
  | cons line rest ih =>
    rw [List.mapIdx_cons]
    cases index with
    | zero => rfl
    | succ index =>
      rw [List.find?_cons_of_neg (by simp), List.getElem?_cons_succ, ← ih index]
      simp

/-- The row that is drawn as selected is the one at the selected index of the rows that are shown. -/
theorem selectedLine_eventsBody (lines : List (UInt64 × String)) (selected : Option ℕ)
    (subscribed : Bool) (filter : ListFilter) :
    (eventsBody lines selected subscribed filter).selectedLine =
      selected.bind ((shownLines lines filter)[·]?) := by
  by_cases hempty : shownLines lines filter = []
  · have hrows : (eventsBody lines selected subscribed filter).rows = [] := by
      rw [eventsBody]
      exact congrArg EventsBody.rows (if_pos hempty)
    rw [EventsBody.selectedLine, hrows, hempty]
    cases selected <;> rfl
  · have hrows : (eventsBody lines selected subscribed filter).rows =
        (shownLines lines filter).mapIdx fun offset line ↦ ⟨line.1, line.2, selected = some offset⟩ := by
      rw [eventsBody]
      exact congrArg EventsBody.rows (if_neg hempty)
    rw [EventsBody.selectedLine, hrows]
    cases selected with
    | none =>
      rw [List.find?_eq_none.mpr]
      · rfl
      · intro row hrow
        obtain ⟨offset, hoffset, rfl⟩ := List.mem_mapIdx.mp hrow
        simp
    | some index => exact find?_mapIdx_selected (shownLines lines filter) index

/-- The box has the message at the selected index of all lines, when a row is shown. -/
theorem selectedBox_eventsBody (lines : List (UInt64 × String)) (selected : Option ℕ)
    (subscribed : Bool) (filter : ListFilter) :
    (eventsBody lines selected subscribed filter).selectedBox =
      if shownLines lines filter = [] then none
      else selected.bind fun index ↦ lines[index]?.map Prod.snd := by
  by_cases hempty : shownLines lines filter = []
  · rw [if_pos hempty, eventsBody]
    exact congrArg EventsBody.selectedBox (if_pos hempty)
  · have hbox : (eventsBody lines selected subscribed filter).selectedBox =
        (selected.bind (lines[·]?)).map Prod.snd := by
      rw [eventsBody]
      exact congrArg EventsBody.selectedBox (if_neg hempty)
    rw [if_neg hempty, hbox]
    cases selected <;> rfl

/-! ### Runs -/

/-- What happens to the buffer: the audit stream is ready, sends a record or is down, or a row is
clicked. -/
inductive LogInput
  | ready
  | record (record : AuditStreamRecord)
  | down
  | click (index : ℕ)
  deriving DecidableEq, Repr

namespace LogBuffer

def step (buffer : LogBuffer) : LogInput → LogBuffer
  | .ready => buffer.setSubscribed true
  | .record record => buffer.pushLine record
  | .down => buffer.setSubscribed false
  | .click index => buffer.select index

/-- The buffer after inputs. -/
def run (inputs : List LogInput) : LogBuffer := inputs.foldl step new

/-- The lines are those of records, and the selection is the first one or one of them. -/
structure WellFormed (buffer : LogBuffer) : Prop where
  records : ∀ line ∈ buffer.lines, ∃ record : AuditStreamRecord, line = record.logLine
  selected : buffer.selected = 0 ∨ buffer.selected < buffer.lines.length

/-- Keeping the selection among the lines changes nothing else. Assumes: the lines are those of
records. -/
theorem wellFormed_clampSelection {buffer : LogBuffer}
    (hrecords : ∀ line ∈ buffer.lines, ∃ record : AuditStreamRecord, line = record.logLine) :
    buffer.clampSelection.WellFormed := by
  rw [clampSelection]
  split_ifs with hempty hbeyond
  · exact ⟨hrecords, .inl rfl⟩
  · refine ⟨hrecords, .inr ?_⟩
    have hpos := List.length_pos_iff.mpr hempty
    show buffer.lines.length - 1 < buffer.lines.length
    omega
  · exact ⟨hrecords, .inr (not_le.mp hbeyond)⟩

theorem wellFormed_step {buffer : LogBuffer} (hwell : buffer.WellFormed) (input : LogInput) :
    (buffer.step input).WellFormed := by
  cases input with
  | ready => exact ⟨hwell.records, hwell.selected⟩
  | down => exact ⟨hwell.records, hwell.selected⟩
  | click index =>
    rw [step, select]
    split_ifs with hempty
    · exact ⟨hwell.records, .inl rfl⟩
    · refine ⟨hwell.records, .inr ?_⟩
      have hpos := List.length_pos_iff.mpr hempty
      show min index (buffer.lines.length - 1) < buffer.lines.length
      omega
  | record record =>
    refine wellFormed_clampSelection fun line hline ↦ ?_
    rcases List.mem_append.mp hline with hold | hnew
    · by_cases hfull : buffer.lines.length = maxAuditLines
      · rw [if_pos hfull] at hold
        exact hwell.records line (List.mem_of_mem_tail hold)
      · rw [if_neg hfull] at hold
        exact hwell.records line hold
    · exact ⟨record, List.mem_singleton.mp hnew⟩

/-- The buffer is well formed in every run. -/
theorem wellFormed_run (inputs : List LogInput) : (run inputs).WellFormed := by
  rw [run, ← Run.stateAt_length]
  exact Run.stateAt_invariant step new inputs WellFormed ⟨by simp [new], .inl rfl⟩
    (fun buffer input hwell ↦ wellFormed_step hwell input) inputs.length

/-- A record takes the place of the oldest line, and the selection moves up. Assumes: there are as
many lines as are kept. -/
theorem pushLine_of_full {buffer : LogBuffer} (hwell : buffer.WellFormed)
    (hfull : buffer.lines.length = maxAuditLines) (record : AuditStreamRecord) :
    buffer.pushLine record = { buffer with
      lines := buffer.lines.tail ++ [record.logLine], selected := buffer.selected - 1 } := by
  have hshifted : (if 0 < buffer.selected then buffer.selected - 1 else buffer.selected) =
      buffer.selected - 1 := by
    split_ifs <;> omega
  have hlength : (buffer.lines.tail ++ [record.logLine]).length = maxAuditLines := by
    rw [List.length_append, List.length_tail, hfull]
    rfl
  have hcap : 0 < maxAuditLines := by decide
  have hselected : ¬ (buffer.lines.tail ++ [record.logLine]).length ≤ buffer.selected - 1 := by
    have hrange := hwell.selected
    omega
  rw [pushLine, if_pos hfull, clampSelection]
  dsimp only
  rw [hshifted, if_neg (by simp), if_neg hselected]

/-- The line of a record reads back as its sequence and message. -/
theorem parseLine_logLine (record : AuditStreamRecord) :
    parseLine record.logLine = some (record.sequence, record.message) := by
  have hbar : "|".toList = ['|'] := by decide
  have hline : record.logLine.toList =
      (decimal record.sequence.toNat).toList ++ '|' :: record.message.toList := by
    rw [AuditStreamRecord.logLine, String.toList_append, String.toList_append, hbar,
      List.append_assoc, List.singleton_append]
  have hdigits : '|' ∉ (decimal record.sequence.toNat).toList := by
    rw [toList_decimal]
    exact Text.not_mem_toDigits (by decide) _
  rw [parseLine, hline, Text.splitOnce_append hdigits]
  dsimp only
  rw [toList_decimal, Text.parseUnsigned_toDigits record.sequence.toNat_lt, Option.map_some,
    UInt64.ofNat_toNat, String.ofList_toList]

/-- The first line is the first one with a sequence. Assumes: the buffer is well formed and holds
it. -/
theorem parsedLines_cons {buffer : LogBuffer} (hwell : buffer.WellFormed) {first : String}
    {rest : List String} (hlines : buffer.lines = first :: rest) :
    ∃ line, buffer.parsedLines = line :: rest.filterMap parseLine := by
  obtain ⟨record, rfl⟩ := hwell.records first (hlines ▸ List.mem_cons_self)
  refine ⟨(record.sequence, record.message), ?_⟩
  rw [parsedLines, hlines, List.filterMap_cons_some (parseLine_logLine record)]

end LogBuffer

end InterFire
