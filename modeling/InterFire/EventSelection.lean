import InterFire.DesktopLog
import InterFire.Library.FilteredView
import InterFire.TerminalApp

/-!
# The selected event

Both clients keep the selection of the events view as an index of the rows that pass the filter, and
use it as an index of the whole log in two places.

The detail of the terminal client and the box of the desktop client take the line at that index of all
lines. It is the line of the selected row when the filter hides nothing up to there, or when it happens
to repeat that line (`event_detail_iff`).

When the log is full, a new line takes the place of the oldest one, and both clients move the selection
up. The selected line stays selected exactly when the oldest line passes the filter, or when the first
row is selected (`selected_event_kept_iff`). A line is followed by its place in the log, which is the
place of the row that is drawn as selected (`highlighted_eq_place`, `selectedLine_eq_place`).
-/

set_option autoImplicit false
set_option relaxedAutoImplicit false

namespace InterFire

open FilteredView

/-! ### The detail of the selected event -/

/-- A line passes the filter of the desktop client. -/
def ListFilter.showsLine (filter : ListFilter) (line : UInt64 × String) : Bool :=
  filter.passes (eventFields line)

theorem shownLines_eq (lines : List (UInt64 × String)) (filter : ListFilter) :
    shownLines lines filter = (lines.filter filter.showsLine).take filter.limit.effective :=
  rfl

/-- No line is shown, or at the selected index there is no line, or there is a row and it is
aligned with the lines. -/
def BoxAligned (lines : List (UInt64 × String)) (selected : Option ℕ) (filter : ListFilter) : Prop :=
  filter.limit.effective = 0 ∨ lines.countP filter.showsLine = 0 ∨
    ∀ index, selected = some index → lines.length ≤ index ∨
      index < filter.limit.effective ∧ index < lines.countP filter.showsLine ∧
        Aligned filter.showsLine Prod.snd lines index

theorem shownLines_eq_nil_iff (lines : List (UInt64 × String)) (filter : ListFilter) :
    shownLines lines filter = [] ↔
      filter.limit.effective = 0 ∨ lines.countP filter.showsLine = 0 := by
  rw [shownLines_eq, List.take_eq_nil_iff, List.countP_eq_length_filter, List.length_eq_zero_iff]

/-- The box of the desktop client belongs to the selected row exactly when they are aligned. -/
theorem selectedBox_eq_iff (lines : List (UInt64 × String)) (selected : Option ℕ) (subscribed : Bool)
    (filter : ListFilter) :
    (eventsBody lines selected subscribed filter).selectedBox =
        (eventsBody lines selected subscribed filter).selectedLine.map Prod.snd ↔
      BoxAligned lines selected filter := by
  rw [selectedBox_eventsBody, selectedLine_eventsBody, BoxAligned]
  by_cases hempty : shownLines lines filter = []
  · have hnone : selected.bind ((shownLines lines filter)[·]?) = none := by
      rw [hempty]
      cases selected <;> rfl
    rw [if_pos hempty, hnone]
    refine iff_of_true rfl ?_
    rw [← or_assoc]
    exact .inl ((shownLines_eq_nil_iff lines filter).mp hempty)
  · rw [if_neg hempty]
    rw [shownLines_eq_nil_iff, not_or] at hempty
    rw [or_iff_right hempty.1, or_iff_right hempty.2]
    cases selected with
    | none => exact iff_of_true rfl nofun
    | some index =>
      have hforall : (∀ other, some index = some other → lines.length ≤ other ∨
          other < filter.limit.effective ∧ other < lines.countP filter.showsLine ∧
            Aligned filter.showsLine Prod.snd lines other) ↔ lines.length ≤ index ∨
          index < filter.limit.effective ∧ index < lines.countP filter.showsLine ∧
            Aligned filter.showsLine Prod.snd lines index := by
        simp
      rw [hforall, Option.bind_some, Option.bind_some, shownLines_eq]
      by_cases hrow : index < filter.limit.effective ∧ index < lines.countP filter.showsLine
      · have hcount := hrow.2
        rw [List.countP_eq_length_filter] at hcount
        have hbeyond : ¬ lines.length ≤ index :=
          not_le.mpr (hrow.2.trans_le List.countP_le_length)
        rw [List.getElem?_take_of_lt hrow.1, eq_comm,
          getElem?_filter_eq_iff filter.showsLine Prod.snd hcount, or_iff_right hbeyond,
          and_iff_right hrow.1, and_iff_right hrow.2]
      · have hnone : ((lines.filter filter.showsLine).take filter.limit.effective)[index]? = none := by
          rw [List.getElem?_eq_none_iff, List.length_take, ← List.countP_eq_length_filter]
          omega
        have hshown : ¬ (index < filter.limit.effective ∧ index < lines.countP filter.showsLine ∧
            Aligned filter.showsLine Prod.snd lines index) :=
          fun h ↦ hrow ⟨h.1, h.2.1⟩
        rw [hnone, or_iff_left hshown, Option.map_none, Option.map_eq_none_iff,
          List.getElem?_eq_none_iff]

namespace Terminal.App

variable {app : App}

/-- A row of the filtered log is selected. Assumes: there is one. -/
theorem listSelected_lt (hrange : app.InRange) (htab : app.tab = .events)
    (hshown : app.filteredAudit ≠ []) : app.listSelected < app.filteredAudit.length := by
  have hlen : app.listLen = app.filteredAudit.length := by rw [listLen, htab]
  have hpos := List.length_pos_iff.mpr hshown
  rw [InRange, hlen] at hrange
  omega

/-- The detail of the terminal client belongs to the highlighted row exactly when they are aligned.
Assumes: the selection is in range, and the filtered log is not empty. -/
theorem detailLines_eq_iff (hrange : app.InRange) (htab : app.tab = .events)
    (hshown : app.filteredAudit ≠ []) (viewportRows : ℕ) :
    app.detailLines = (app.highlighted viewportRows).toList ↔
      Aligned app.eventsFilter.matches id app.audit app.listSelected := by
  have hrow := listSelected_lt hrange htab hshown
  have hlt : app.listSelected < app.audit.length :=
    hrow.trans_le (List.length_filter_le app.eventsFilter.matches app.audit)
  have hdetail : app.detailLines = app.audit[app.listSelected]?.toList := by
    rw [detailLines, htab]
    dsimp only
    rw [eventDetailLines, List.getElem?_eq_getElem hlt]
    rfl
  have hiff := getElem?_filter_eq_iff app.eventsFilter.matches id hrow
  rw [Option.map_id, id, id] at hiff
  have hlist : ∀ first second : Option String, first.toList = second.toList ↔ second = first := by
    rintro (_ | first) (_ | second) <;> simp [eq_comm]
  rw [hdetail, highlighted_eq hrange htab, ← hiff, hlist]
  rfl

end Terminal.App

/-- The detail of the highlighted event and the box of the selected row are theirs exactly when the
line at the selected index of the whole log is: when the filter hides nothing up to it, or when it
repeats the line of the row. Assumes: the terminal client shows the events, and some pass its
filter. -/
theorem event_detail_iff (socket : String) (inputs : List Terminal.Input)
    (htab : (Terminal.App.run socket inputs).tab = .events)
    (hshown : (Terminal.App.run socket inputs).filteredAudit ≠ []) (viewportRows : ℕ)
    (lines : List (UInt64 × String)) (selected : Option ℕ) (subscribed : Bool) (filter : ListFilter) :
    ((Terminal.App.run socket inputs).detailLines =
        ((Terminal.App.run socket inputs).highlighted viewportRows).toList ↔
      Aligned (Terminal.App.run socket inputs).eventsFilter.matches id
        (Terminal.App.run socket inputs).audit (Terminal.App.run socket inputs).listSelected) ∧
    ((eventsBody lines selected subscribed filter).selectedBox =
        (eventsBody lines selected subscribed filter).selectedLine.map Prod.snd ↔
      BoxAligned lines selected filter) :=
  ⟨Terminal.App.detailLines_eq_iff (Terminal.App.inRange_run socket inputs) htab hshown viewportRows,
    selectedBox_eq_iff lines selected subscribed filter⟩

/-- The events tab, two records, and a filter that shows the second one. -/
def filteredInputs : List Terminal.Input :=
  [.key (.char '5'), .event (.audit ⟨1, "outcome=deny"⟩), .event (.audit ⟨2, "outcome=allow"⟩),
    .key (.char 'f')]

/-- The events tab, two records, and a filter that shows the first one. -/
def alignedInputs : List Terminal.Input :=
  [.key (.char '5'), .event (.audit ⟨1, "outcome=allow"⟩), .event (.audit ⟨2, "outcome=deny"⟩),
    .key (.char 'f')]

/-- The detail is that of the first record, which is highlighted, and so is the box of the desktop. -/
theorem first_record_detailed :
    (Terminal.App.run "" alignedInputs).detailLines =
        ((Terminal.App.run "" alignedInputs).highlighted 10).toList ∧
      (eventsBody [(1, "outcome=allow")] (some 0) true ⟨"", .all, .all⟩).selectedBox =
        (eventsBody [(1, "outcome=allow")] (some 0) true ⟨"", .all, .all⟩).selectedLine.map
          Prod.snd := by
  have hiff := event_detail_iff "" alignedInputs (by decide) (by decide) 10 [(1, "outcome=allow")]
    (some 0) true ⟨"", .all, .all⟩
  refine ⟨hiff.1.mpr (.inl (by decide)), hiff.2.mpr (.inr (.inr ?_))⟩
  intro index hindex
  obtain rfl := Option.some.inj hindex
  exact .inr ⟨by decide, by decide, .inl (by decide)⟩

/-- The second record is highlighted, and the detail is that of the first one, which is hidden. -/
theorem hidden_record_detailed :
    ¬ ∀ (socket : String) (inputs : List Terminal.Input),
      (Terminal.App.run socket inputs).tab = .events →
      (Terminal.App.run socket inputs).filteredAudit ≠ [] → ∀ viewportRows,
        (Terminal.App.run socket inputs).detailLines =
          ((Terminal.App.run socket inputs).highlighted viewportRows).toList := by
  intro hall
  exact absurd (hall "" filteredInputs (by decide) (by decide) 10) (by decide)

/-! ### The selected event in a full log -/

namespace Terminal.App

variable {app : App}

/-- The place in the log of the highlighted line. -/
def highlightedPlace (app : App) : Option ℕ :=
  place app.eventsFilter.matches app.audit app.listSelected

/-- The highlighted line is the one at that place. Assumes: the selection is in range. -/
theorem highlighted_eq_place (hrange : app.InRange) (htab : app.tab = .events) (viewportRows : ℕ) :
    app.highlighted viewportRows = app.highlightedPlace.bind (app.audit[·]?) := by
  rw [highlighted_eq hrange htab]
  exact getElem?_filter app.eventsFilter.matches app.audit app.listSelected

/-- The highlighted line of a full log is highlighted after a line is appended, when all lines have
moved up and the oldest one is gone. -/
def KeepsPlace (app : App) (line : String) : Prop :=
  ∀ index, app.highlightedPlace = some (index + 1) →
    (app.pushAuditLine line).highlightedPlace = some index

/-- The text that is highlighted is highlighted after a line is appended, if it is still shown. -/
def KeepsText (app : App) (line : String) : Prop :=
  ∀ before after text, app.highlighted before = some text →
    text ∈ (app.pushAuditLine line).filteredAudit →
    (app.pushAuditLine line).highlighted after = some text

/-- The oldest line passes the filter. -/
def OldestShown (app : App) : Prop :=
  ∃ oldest, app.audit.head? = some oldest ∧ app.eventsFilter.matches oldest = true

/-- A line takes the place of the oldest one, and the selection moves up. Assumes: the log is full, and
the selection is in range. -/
theorem pushAuditLine_of_full (hrange : app.InRange) (htab : app.tab = .events)
    (hfull : app.audit.length = maxAuditLines) (line : String) :
    app.pushAuditLine line = { app with
      audit := app.audit.tail ++ [line], listSelected := app.listSelected - 1 } := by
  have hshifted : (if 0 < app.listSelected ∧ app.tab = .events then app.listSelected - 1
      else app.listSelected) = app.listSelected - 1 := by
    by_cases hpos : 0 < app.listSelected
    · rw [if_pos ⟨hpos, htab⟩]
    · rw [if_neg fun h ↦ hpos h.1]
      omega
  have hlen : app.listLen = app.filteredAudit.length := by rw [listLen, htab]
  -- At most the oldest line is missing from the filtered log.
  have hlater : app.filteredAudit.length ≤
      ((app.audit.tail ++ [line]).filter app.eventsFilter.matches).length + 1 := by
    have hsplit : app.audit = app.audit.take 1 ++ app.audit.tail := by
      rw [← List.drop_one, List.take_append_drop]
    have hfirst : ((app.audit.take 1).filter app.eventsFilter.matches).length ≤ 1 :=
      (List.length_filter_le _ _).trans (List.length_take_le 1 app.audit)
    rw [filteredAudit, hsplit, List.filter_append, List.length_append, ← hsplit, List.filter_append,
      List.length_append]
    omega
  rw [InRange, hlen] at hrange
  rw [pushAuditLine, if_pos hfull]
  dsimp only
  rw [hshifted]
  refine clampSelection_eq_self ?_
  rw [InRange, listLen, htab]
  dsimp only
  rw [filteredAudit]
  dsimp only
  omega

theorem exists_oldest (hfull : app.audit.length = maxAuditLines) :
    ∃ oldest rest, app.audit = oldest :: rest := by
  have hcap : 0 < maxAuditLines := by decide
  exact List.exists_cons_of_ne_nil (List.length_pos_iff.mp (hfull ▸ hcap))

theorem oldestShown_iff {oldest : String} {rest : List String} (haudit : app.audit = oldest :: rest) :
    app.OldestShown ↔ app.eventsFilter.matches oldest = true := by
  rw [OldestShown, haudit]
  simp

/-- Without a row the first one is selected. Assumes: the selection is in range. -/
theorem listSelected_eq_zero (hrange : app.InRange) (htab : app.tab = .events)
    (hempty : app.filteredAudit = []) : app.listSelected = 0 := by
  have hlen : app.listLen = app.filteredAudit.length := by rw [listLen, htab]
  rw [InRange, hlen, hempty] at hrange
  exact hrange.resolve_right (Nat.not_lt_zero _)

/-- The highlighted line stays highlighted exactly when the oldest one was shown, or the first row is
selected. Assumes: the log is full, and the selection is in range. -/
theorem keepsPlace_iff (hrange : app.InRange) (htab : app.tab = .events)
    (hfull : app.audit.length = maxAuditLines) (line : String) :
    app.KeepsPlace line ↔ app.OldestShown ∨ app.listSelected = 0 := by
  obtain ⟨oldest, rest, haudit⟩ := exists_oldest hfull
  by_cases hempty : app.filteredAudit = []
  · refine iff_of_true (fun index hplace ↦ ?_) (.inr (listSelected_eq_zero hrange htab hempty))
    have hrow := (isSome_place_iff app.eventsFilter.matches app.audit app.listSelected).mp
      (Option.isSome_iff_exists.mpr ⟨_, hplace⟩)
    rw [← filteredAudit, hempty] at hrow
    cases hrow
  · have hrow := listSelected_lt hrange htab hempty
    rw [filteredAudit, haudit] at hrow
    rw [oldestShown_iff haudit, ← place_moved_iff app.eventsFilter.matches hrow [line], KeepsPlace,
      pushAuditLine_of_full hrange htab hfull, highlightedPlace, highlightedPlace, haudit]
    rfl

/-- So does the highlighted text. Assumes: besides, no line occurs twice. -/
theorem keepsText_iff (hrange : app.InRange) (htab : app.tab = .events)
    (hfull : app.audit.length = maxAuditLines) {line : String} (hnodup : (app.audit ++ [line]).Nodup) :
    app.KeepsText line ↔ app.OldestShown ∨ app.listSelected = 0 := by
  obtain ⟨oldest, rest, haudit⟩ := exists_oldest hfull
  have hpushed : (app.pushAuditLine line).InRange := inRange_clampSelection _
  have hpush := pushAuditLine_of_full hrange htab hfull line
  have htab' : (app.pushAuditLine line).tab = .events := by rw [hpush, ← htab]
  have hfiltered : (app.pushAuditLine line).filteredAudit =
      (rest ++ [line]).filter app.eventsFilter.matches := by
    rw [hpush, filteredAudit, haudit]
    rfl
  have hselected : (app.pushAuditLine line).listSelected = app.listSelected - 1 := by rw [hpush]
  have hkeeps : app.KeepsText line ↔ ∀ text, app.filteredAudit[app.listSelected]? = some text →
      text ∈ (app.pushAuditLine line).filteredAudit →
      (app.pushAuditLine line).filteredAudit[app.listSelected - 1]? = some text := by
    rw [← hselected, KeepsText]
    simp only [highlighted_eq hrange htab, highlighted_eq hpushed htab', forall_const]
  rw [hkeeps]
  by_cases hempty : app.filteredAudit = []
  · refine iff_of_true (fun text htext ↦ ?_) (.inr (listSelected_eq_zero hrange htab hempty))
    rw [hempty] at htext
    cases htext
  · have hrow := listSelected_lt hrange htab hempty
    rw [filteredAudit, haudit] at hrow
    rw [haudit, List.cons_append] at hnodup
    -- There is no limit to the rows.
    have hmoved := item_moved_iff app.eventsFilter.matches hrow
      (Nat.lt_add_left ((rest ++ [line]).filter app.eventsFilter.matches).length
        (Nat.lt_succ_self app.listSelected)) hnodup
    rw [List.take_of_length_le (Nat.le_add_right _ _)] at hmoved
    rw [oldestShown_iff haudit, ← hmoved, hfiltered, filteredAudit, haudit]

end Terminal.App

namespace LogBuffer

variable {buffer : LogBuffer}

/-- What the desktop client draws of a buffer. -/
def view (buffer : LogBuffer) (filter : ListFilter) : EventsBody :=
  eventsBody buffer.parsedLines buffer.selectedIndex buffer.subscribed filter

/-- The place in the log of the row that is drawn as selected. -/
def selectedPlace (buffer : LogBuffer) (filter : ListFilter) : Option ℕ :=
  if buffer.selected < filter.limit.effective then
    place filter.showsLine buffer.parsedLines buffer.selected
  else none

/-- The row that is drawn as selected is the one at the selected index of the lines that are shown. -/
theorem selectedLine_view (buffer : LogBuffer) (filter : ListFilter) :
    (buffer.view filter).selectedLine = (shownLines buffer.parsedLines filter)[buffer.selected]? := by
  rw [view, selectedLine_eventsBody, selectedIndex]
  split_ifs with hempty
  · rw [parsedLines, hempty, List.filterMap_nil, shownLines_eq, List.filter_nil, List.take_nil]
    rfl
  · rfl

/-- The row that is drawn as selected is the line at that place. -/
theorem selectedLine_eq_place (buffer : LogBuffer) (filter : ListFilter) :
    (buffer.view filter).selectedLine =
      (buffer.selectedPlace filter).bind (buffer.parsedLines[·]?) := by
  rw [selectedLine_view, shownLines_eq, selectedPlace]
  split_ifs with hlimit
  · rw [List.getElem?_take_of_lt hlimit, getElem?_filter]
  · rw [List.getElem?_take_eq_none (not_lt.mp hlimit)]
    rfl

/-- The selected line of a full buffer is selected after a record is appended, when all lines have
moved up and the oldest one is gone. -/
def KeepsPlace (buffer : LogBuffer) (filter : ListFilter) (record : AuditStreamRecord) : Prop :=
  ∀ index, buffer.selectedPlace filter = some (index + 1) →
    (buffer.pushLine record).selectedPlace filter = some index

/-- The line that is drawn as selected is drawn so after a record is appended, if it is still
shown. -/
def KeepsLine (buffer : LogBuffer) (filter : ListFilter) (record : AuditStreamRecord) : Prop :=
  ∀ line, (buffer.view filter).selectedLine = some line →
    line ∈ shownLines (buffer.pushLine record).parsedLines filter →
    ((buffer.pushLine record).view filter).selectedLine = some line

/-- The oldest line passes the filter. -/
def OldestShown (buffer : LogBuffer) (filter : ListFilter) : Prop :=
  ∃ oldest, buffer.parsedLines.head? = some oldest ∧ filter.showsLine oldest = true

/-- A row is drawn as selected. -/
def RowSelected (buffer : LogBuffer) (filter : ListFilter) : Prop :=
  buffer.selected < filter.limit.effective ∧
    buffer.selected < buffer.parsedLines.countP filter.showsLine

theorem oldestShown_iff {filter : ListFilter} {oldest : UInt64 × String}
    {rest : List (UInt64 × String)} (hlines : buffer.parsedLines = oldest :: rest) :
    buffer.OldestShown filter ↔ filter.showsLine oldest = true := by
  rw [OldestShown, hlines]
  simp

/-- What a record does to the lines of a full buffer, and to the selection. -/
theorem parsedLines_pushLine (hwell : buffer.WellFormed)
    (hfull : buffer.lines.length = maxAuditLines) (record : AuditStreamRecord) :
    ∃ oldest rest, buffer.parsedLines = oldest :: rest ∧
      (buffer.pushLine record).parsedLines = rest ++ [(record.sequence, record.message)] ∧
      (buffer.pushLine record).selected = buffer.selected - 1 := by
  have hcap : 0 < maxAuditLines := by decide
  obtain ⟨first, rest, hlines⟩ :=
    List.exists_cons_of_ne_nil (List.length_pos_iff.mp (hfull ▸ hcap))
  obtain ⟨oldest, holdest⟩ := parsedLines_cons hwell hlines
  refine ⟨oldest, rest.filterMap parseLine, holdest, ?_, ?_⟩
  · rw [pushLine_of_full hwell hfull, parsedLines, hlines, List.tail_cons, List.filterMap_append,
      List.filterMap_cons_some (parseLine_logLine record), List.filterMap_nil]
  · rw [pushLine_of_full hwell hfull]

/-- The selected line stays selected exactly when no row is drawn as selected, the oldest line was
shown, or the first row is selected. Assumes: the buffer is full. -/
theorem keepsPlace_iff (hwell : buffer.WellFormed) (hfull : buffer.lines.length = maxAuditLines)
    (filter : ListFilter) (record : AuditStreamRecord) :
    buffer.KeepsPlace filter record ↔
      ¬ buffer.RowSelected filter ∨ buffer.OldestShown filter ∨ buffer.selected = 0 := by
  obtain ⟨oldest, rest, hlines, hlines', hselected⟩ := parsedLines_pushLine hwell hfull record
  by_cases hrow : buffer.RowSelected filter
  · have hcount := hrow.2
    have hlimit : buffer.selected - 1 < filter.limit.effective :=
      (Nat.sub_le _ 1).trans_lt hrow.1
    rw [List.countP_eq_length_filter, hlines] at hcount
    rw [or_iff_right (not_not.mpr hrow), oldestShown_iff hlines,
      ← place_moved_iff filter.showsLine hcount [(record.sequence, record.message)], KeepsPlace,
      selectedPlace, selectedPlace, hselected, hlines', hlines, if_pos hrow.1, if_pos hlimit]
  · refine iff_of_true (fun index hplace ↦ ?_) (.inl hrow)
    rw [selectedPlace] at hplace
    split_ifs at hplace with hlimit
    have hcount := (isSome_place_iff filter.showsLine buffer.parsedLines buffer.selected).mp
      (Option.isSome_iff_exists.mpr ⟨_, hplace⟩)
    rw [← List.countP_eq_length_filter] at hcount
    exact absurd ⟨hlimit, hcount⟩ hrow

/-- So does the line that is drawn. Assumes: besides, no line occurs twice. -/
theorem keepsLine_iff (hwell : buffer.WellFormed) (hfull : buffer.lines.length = maxAuditLines)
    (filter : ListFilter) {record : AuditStreamRecord}
    (hnodup : (buffer.parsedLines ++ [(record.sequence, record.message)]).Nodup) :
    buffer.KeepsLine filter record ↔
      ¬ buffer.RowSelected filter ∨ buffer.OldestShown filter ∨ buffer.selected = 0 := by
  obtain ⟨oldest, rest, hlines, hlines', hselected⟩ := parsedLines_pushLine hwell hfull record
  simp only [KeepsLine, selectedLine_view, hselected, hlines', shownLines_eq]
  by_cases hrow : buffer.RowSelected filter
  · have hcount := hrow.2
    have hlimit : buffer.selected - 1 < filter.limit.effective :=
      (Nat.sub_le _ 1).trans_lt hrow.1
    rw [List.countP_eq_length_filter, hlines] at hcount
    rw [hlines, List.cons_append] at hnodup
    rw [or_iff_right (not_not.mpr hrow), oldestShown_iff hlines,
      ← item_moved_iff filter.showsLine hcount hrow.1 hnodup, hlines,
      List.getElem?_take_of_lt hrow.1, List.getElem?_take_of_lt hlimit]
  · refine iff_of_true (fun line hline ↦ ?_) (.inl hrow)
    obtain ⟨hlt, -⟩ := List.getElem?_eq_some_iff.mp hline
    rw [List.length_take, ← List.countP_eq_length_filter, Nat.lt_min] at hlt
    exact absurd hlt hrow

end LogBuffer

/-- The terminal client may be in such a state. -/
def Terminal.App.Reachable (app : Terminal.App) : Prop :=
  ∃ socket inputs, app = Terminal.App.run socket inputs

/-- The desktop client may have such a buffer. -/
def LogBuffer.Reachable (buffer : LogBuffer) : Prop := ∃ inputs, buffer = LogBuffer.run inputs

/-- The selected event of a full log stays selected exactly when the oldest event passes the filter, or
the first row is selected, or the desktop client draws no row as selected. The lines are told apart by
their places, and by their texts when none occurs twice. Assumes: the terminal client shows the events,
and both logs are full. -/
theorem selected_event_kept_iff {app : Terminal.App} (happ : app.Reachable) (htab : app.tab = .events)
    (hfull : app.audit.length = Terminal.maxAuditLines) {buffer : LogBuffer}
    (hbuffer : buffer.Reachable) (hlines : buffer.lines.length = LogBuffer.maxAuditLines)
    (filter : ListFilter) (record : AuditStreamRecord) :
    ((app.KeepsPlace record.logLine ↔ app.OldestShown ∨ app.listSelected = 0) ∧
      ((app.audit ++ [record.logLine]).Nodup →
        (app.KeepsText record.logLine ↔ app.OldestShown ∨ app.listSelected = 0))) ∧
    (buffer.KeepsPlace filter record ↔
      ¬ buffer.RowSelected filter ∨ buffer.OldestShown filter ∨ buffer.selected = 0) ∧
    ((buffer.parsedLines ++ [(record.sequence, record.message)]).Nodup →
      (buffer.KeepsLine filter record ↔
        ¬ buffer.RowSelected filter ∨ buffer.OldestShown filter ∨ buffer.selected = 0)) := by
  obtain ⟨socket, inputs, rfl⟩ := happ
  obtain ⟨logInputs, rfl⟩ := hbuffer
  have hrange := Terminal.App.inRange_run socket inputs
  have hwell := LogBuffer.wellFormed_run logInputs
  exact ⟨⟨Terminal.App.keepsPlace_iff hrange htab hfull record.logLine,
      Terminal.App.keepsText_iff hrange htab hfull⟩,
    LogBuffer.keepsPlace_iff hwell hlines filter record, LogBuffer.keepsLine_iff hwell hlines filter⟩

/-! A full log with one hidden event. -/

/-- Records append their lines to a log that has room for them. Assumes: the first row is selected. -/
theorem Terminal.App.foldl_audit {app : Terminal.App} (hselected : app.listSelected = 0)
    {records : List AuditStreamRecord}
    (hroom : app.audit.length + records.length ≤ Terminal.maxAuditLines) :
    (records.map fun record ↦ Terminal.Input.event (.audit record)).foldl Terminal.App.step app =
      { app with audit := app.audit ++ records.map AuditStreamRecord.logLine } := by
  induction records generalizing app with
  | nil => simp
  | cons record records ih =>
    rw [List.length_cons] at hroom
    have hstep : app.step (.event (.audit record)) =
        { app with audit := app.audit ++ [record.logLine] } := by
      have hnotfull : ¬ app.audit.length = Terminal.maxAuditLines := by omega
      show app.pushAuditLine record.logLine = _
      rw [Terminal.App.pushAuditLine, if_neg hnotfull]
      exact Terminal.App.clampSelection_eq_self (.inl hselected)
    have hroom' : (app.audit ++ [record.logLine]).length + records.length ≤ Terminal.maxAuditLines := by
      rw [List.length_append, List.length_singleton]
      omega
    have hrest := @ih { app with audit := app.audit ++ [record.logLine] } hselected hroom'
    rw [List.map_cons, List.foldl_cons, hstep, hrest, List.map_cons, List.append_assoc,
      List.singleton_append]

/-- So they do in the buffer of the desktop client. Assumes: it has room, and the first line is
selected. -/
theorem LogBuffer.foldl_record {buffer : LogBuffer} (hselected : buffer.selected = 0)
    {records : List AuditStreamRecord}
    (hroom : buffer.lines.length + records.length ≤ LogBuffer.maxAuditLines) :
    (records.map LogInput.record).foldl LogBuffer.step buffer =
      { buffer with lines := buffer.lines ++ records.map AuditStreamRecord.logLine } := by
  induction records generalizing buffer with
  | nil => simp
  | cons record records ih =>
    rw [List.length_cons] at hroom
    have hstep : buffer.step (.record record) =
        { buffer with lines := buffer.lines ++ [record.logLine] } := by
      have hnotfull : ¬ buffer.lines.length = LogBuffer.maxAuditLines := by omega
      show buffer.pushLine record = _
      rw [LogBuffer.pushLine, if_neg hnotfull, LogBuffer.clampSelection]
      dsimp only
      rw [if_neg (by simp), if_neg (by simp [hselected])]
    have hroom' : (buffer.lines ++ [record.logLine]).length + records.length ≤
        LogBuffer.maxAuditLines := by
      rw [List.length_append, List.length_singleton]
      omega
    have hrest := @ih { buffer with lines := buffer.lines ++ [record.logLine] } hselected hroom'
    rw [List.map_cons, List.foldl_cons, hstep, hrest, List.map_cons, List.append_assoc,
      List.singleton_append]

/-- Allowed events after the first one, as many as fill the log. -/
def allowedEvents : List AuditStreamRecord :=
  ⟨2, "outcome=allow"⟩ :: ⟨3, "outcome=allow"⟩ ::
    (List.range 1997).map fun index ↦ ⟨UInt64.ofNat (index + 4), "outcome=allow"⟩

/-- A denied event and the allowed ones. -/
def fullEvents : List AuditStreamRecord := ⟨1, "outcome=deny"⟩ :: allowedEvents

theorem length_fullEvents : fullEvents.length = 2000 := by
  rw [fullEvents, allowedEvents, List.length_cons, List.length_cons, List.length_cons, List.length_map,
    List.length_range]

/-- The events tab, and the events. -/
def fullInputs : List Terminal.Input :=
  .key (.char '5') :: fullEvents.map fun record ↦ .event (.audit record)

/-- The state of the terminal client then. -/
def fullApp : Terminal.App :=
  { Terminal.App.new "" with tab := .events, audit := fullEvents.map AuditStreamRecord.logLine }

theorem run_fullInputs : Terminal.App.run "" fullInputs = fullApp := by
  have htab : (Terminal.App.new "").step (.key (.char '5')) =
      { Terminal.App.new "" with tab := .events } := rfl
  have hselected : ({ Terminal.App.new "" with tab := .events } : Terminal.App).listSelected = 0 := rfl
  have haudit : ({ Terminal.App.new "" with tab := .events } : Terminal.App).audit = [] := rfl
  have hroom : ({ Terminal.App.new "" with tab := .events } : Terminal.App).audit.length +
      fullEvents.length ≤ Terminal.maxAuditLines := by
    rw [haudit, length_fullEvents]
    decide
  rw [Terminal.App.run, fullInputs, List.foldl_cons, htab, Terminal.App.foldl_audit hselected hroom,
    haudit, List.nil_append]
  rfl

theorem length_audit_fullApp : fullApp.audit.length = Terminal.maxAuditLines := by
  rw [fullApp, List.length_map, length_fullEvents]
  rfl

/-- Without a filter the oldest event is shown, and the selected one stays selected in both clients. -/
theorem unfiltered_event_kept :
    fullApp.KeepsPlace (AuditStreamRecord.logLine ⟨2001, "outcome=allow"⟩) ∧
      (LogBuffer.run (fullEvents.map .record)).KeepsPlace ⟨"", .all, .all⟩
        ⟨2001, "outcome=allow"⟩ := by
  have hrun : LogBuffer.run (fullEvents.map .record) =
      { LogBuffer.new with lines := fullEvents.map AuditStreamRecord.logLine } := by
    have hselected : LogBuffer.new.selected = 0 := rfl
    have hempty : LogBuffer.new.lines = [] := rfl
    have hroom : LogBuffer.new.lines.length + fullEvents.length ≤ LogBuffer.maxAuditLines := by
      rw [hempty, length_fullEvents]
      decide
    rw [LogBuffer.run, LogBuffer.foldl_record hselected hroom, hempty, List.nil_append]
  have hlines : (LogBuffer.run (fullEvents.map .record)).lines.length = LogBuffer.maxAuditLines := by
    rw [hrun, List.length_map, length_fullEvents]
    rfl
  have hkept := selected_event_kept_iff ⟨"", fullInputs, run_fullInputs.symm⟩ rfl length_audit_fullApp
    ⟨fullEvents.map .record, rfl⟩ hlines ⟨"", .all, .all⟩ ⟨2001, "outcome=allow"⟩
  refine ⟨hkept.1.1.mpr (.inl ⟨_, rfl, rfl⟩), hkept.2.1.mpr (.inr (.inr ?_))⟩
  rw [hrun]
  rfl

theorem matches_logLine {record : AuditStreamRecord} (hmessage : record.message = "outcome=allow") :
    Terminal.EventsVerdictFilter.allow.matches record.logLine = true := by
  have hsuffix : "outcome=allow".toList <:+: record.logLine.toList := by
    rw [AuditStreamRecord.logLine, hmessage, String.toList_append]
    exact (List.suffix_append _ _).isInfix
  exact decide_eq_true hsuffix

theorem message_of_mem_allowedEvents {record : AuditStreamRecord} (hmem : record ∈ allowedEvents) :
    record.message = "outcome=allow" := by
  rw [allowedEvents, List.mem_cons, List.mem_cons, List.mem_map] at hmem
  rcases hmem with rfl | rfl | ⟨index, -, rfl⟩
  · rfl
  · rfl
  · rfl

/-- The allowed events are the filtered log. -/
theorem filter_allowedEvents :
    (allowedEvents.map AuditStreamRecord.logLine).filter
        Terminal.EventsVerdictFilter.allow.matches =
      allowedEvents.map AuditStreamRecord.logLine := by
  rw [List.filter_eq_self]
  intro line hline
  obtain ⟨record, hrecord, rfl⟩ := List.mem_map.mp hline
  exact matches_logLine (message_of_mem_allowedEvents hrecord)

/-- A key selects the second row. Assumes: there are two, the first one is selected, and no overlay is
open. -/
theorem Terminal.App.step_down {app : Terminal.App} (hoverlay : app.overlay = .none)
    (hpane : app.pane = .list) (hselected : app.listSelected = 0) (hlen : 1 < app.listLen) :
    app.step (.key (.char 'j')) = { app with listSelected := 1 } := by
  have hkey : (app.handleKey (.char 'j')).1 = app.moveList 1 := by
    rw [handleKey, hoverlay]
    exact if_pos hpane
  have hnext : (((0 : ℕ) + 1 : ℤ) % app.listLen).toNat = 1 := by
    rw [Int.emod_eq_of_lt (by omega) (by omega)]
    rfl
  show (app.handleKey (.char 'j')).1 = _
  rw [hkey, moveList, if_neg (by omega), hselected, hnext]

/-- The full log, with a filter that hides the oldest event, and the second row selected. -/
def hiddenOldestApp : Terminal.App :=
  { fullApp with
    eventsFilter := .allow
    statusMessage := some "Events filter: Allow"
    listSelected := 1 }

theorem filteredAudit_hiddenOldestApp :
    hiddenOldestApp.filteredAudit = allowedEvents.map AuditStreamRecord.logLine := by
  have holdest : ¬ Terminal.EventsVerdictFilter.allow.matches
      (AuditStreamRecord.logLine ⟨1, "outcome=deny"⟩) = true := by decide
  have haudit : hiddenOldestApp.audit = AuditStreamRecord.logLine ⟨1, "outcome=deny"⟩ ::
      allowedEvents.map AuditStreamRecord.logLine := rfl
  have hfilter : hiddenOldestApp.eventsFilter = .allow := rfl
  rw [Terminal.App.filteredAudit, haudit, hfilter, List.filter_cons_of_neg holdest,
    filter_allowedEvents]

theorem run_hiddenOldest :
    Terminal.App.run "" (fullInputs ++ [.key (.char 'f'), .key (.char 'j')]) = hiddenOldestApp := by
  have hfilter : fullApp.step (.key (.char 'f')) = { hiddenOldestApp with listSelected := 0 } := rfl
  have hlen : ({ hiddenOldestApp with listSelected := 0 } : Terminal.App).listLen = 1999 := by
    show hiddenOldestApp.filteredAudit.length = 1999
    rw [filteredAudit_hiddenOldestApp, List.length_map, allowedEvents, List.length_cons,
      List.length_cons, List.length_map, List.length_range]
  have hmove : ({ hiddenOldestApp with listSelected := 0 } : Terminal.App).step (.key (.char 'j')) =
      hiddenOldestApp :=
    Terminal.App.step_down rfl rfl rfl (by rw [hlen]; decide)
  rw [Terminal.App.run, List.foldl_append, ← Terminal.App.run, run_fullInputs, List.foldl_cons,
    List.foldl_cons, List.foldl_nil, hfilter, hmove]

/-- The third event is highlighted, the hidden first one goes, and then the second one is
highlighted. -/
theorem selected_event_lost :
    ¬ ∀ app : Terminal.App, app.Reachable → app.tab = .events →
      app.audit.length = Terminal.maxAuditLines → ∀ record : AuditStreamRecord,
        app.KeepsText record.logLine := by
  intro hall
  have hreach : hiddenOldestApp.Reachable := ⟨"", _, run_hiddenOldest.symm⟩
  have hrange : hiddenOldestApp.InRange := run_hiddenOldest ▸ Terminal.App.inRange_run "" _
  have hkept := hall hiddenOldestApp hreach rfl length_audit_fullApp ⟨2001, "outcome=allow"⟩
  obtain ⟨line, hline⟩ : ∃ line, line = AuditStreamRecord.logLine ⟨2001, "outcome=allow"⟩ := ⟨_, rfl⟩
  rw [← hline] at hkept
  have hpush := Terminal.App.pushAuditLine_of_full hrange rfl length_audit_fullApp line
  have hrange' : (hiddenOldestApp.pushAuditLine line).InRange :=
    Terminal.App.inRange_clampSelection _
  have hfiltered : (hiddenOldestApp.pushAuditLine line).filteredAudit =
      allowedEvents.map AuditStreamRecord.logLine ++ [line] := by
    have hshown : Terminal.EventsVerdictFilter.allow.matches line = true := hline ▸ matches_logLine rfl
    rw [hpush]
    show (allowedEvents.map AuditStreamRecord.logLine ++ [line]).filter
      Terminal.EventsVerdictFilter.allow.matches = _
    rw [List.filter_append, filter_allowedEvents, List.filter_cons_of_pos hshown, List.filter_nil]
  have htab' : (hiddenOldestApp.pushAuditLine line).tab = .events := by rw [hpush]; rfl
  have hselected : (hiddenOldestApp.pushAuditLine line).listSelected = 0 := by rw [hpush]; rfl
  have hevents : ∀ more, allowedEvents.map AuditStreamRecord.logLine ++ more =
      AuditStreamRecord.logLine ⟨2, "outcome=allow"⟩ ::
        AuditStreamRecord.logLine ⟨3, "outcome=allow"⟩ ::
          (((List.range 1997).map fun index ↦ (⟨UInt64.ofNat (index + 4), "outcome=allow"⟩ :
            AuditStreamRecord)).map AuditStreamRecord.logLine ++ more) := fun _ ↦ rfl
  have hbefore : hiddenOldestApp.highlighted 10 =
      some (AuditStreamRecord.logLine ⟨3, "outcome=allow"⟩) := by
    rw [Terminal.App.highlighted_eq hrange rfl, filteredAudit_hiddenOldestApp,
      ← List.append_nil (allowedEvents.map _), hevents]
    rfl
  have hlater := hkept 10 10 _ hbefore (by rw [hfiltered, hevents]; simp)
  rw [Terminal.App.highlighted_eq hrange' htab', hfiltered, hselected, hevents,
    List.getElem?_cons_zero] at hlater
  exact absurd (Option.some.inj hlater) (by decide)

end InterFire
