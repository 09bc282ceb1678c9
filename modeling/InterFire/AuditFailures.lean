import InterFire.AuditBytes
import InterFire.AuditLog

/-!
# The audit log on a disk that fails

`AuditLog` of `crates/interfire-daemon/src/audit.rs` on the bytes of its files, with an outcome for
every operation on them: a file that cannot be opened, a write that stops in the middle, a sync or a
rename that fails. A size that cannot be read is taken for zero, and the append goes on; so whether it
is read stands beside the outcome. A failure is logged and the daemon goes on. A daemon that is
stopped during a write is a write that stops, and then an opening. An opening reads nothing when the
file seems to be missing, and ends the daemon when reading fails.

`step_append_done` is the link to the log whose disk does not fail. `audit_log_bounded` says what no
failure changes: the bound of memory, that memory holds the last records of this process, and the
bound of the file, up to the records that were written without knowing its size.
`torn_record_hides_next` says which failures are not harmless: after a write that stopped
inside a record, the next record is written behind what is there, and opening reads both as one.
Opening fails when a line is not a text, and `ascii_log_always_opens` says that this takes a record
beyond ASCII.
-/

set_option autoImplicit false
set_option relaxedAutoImplicit false

namespace InterFire

open LineReader Run

/-- How the writing of one append goes. -/
inductive DiskOutcome
  | openFailed
  | writeFailed (written : ℕ)
  | syncFailed
  | renameFailed
  | permissionsFailed
  | done
  deriving DecidableEq, Repr

/-- How the operations of an opening on the disk go. -/
inductive OpenOutcome
  | hidden
  | failed
  | done
  deriving DecidableEq, Repr

/-- A log, unless the daemon could not open it, its file and the temporary file. -/
structure AuditDisk where
  log : Option AuditLog
  file : Option (List UInt8)
  temporary : Option (List UInt8)

namespace AuditLog

/-- A line without its end. -/
def lineText (text : List Char) : List Char :=
  if text.getLast? = some '\n' then Text.stripReturn text.dropLast else text

/-- Take in a line, unless it is not a text. -/
def loadBytesLine (log : AuditLog) (line : List UInt8) : Except String AuditLog :=
  match Utf8.decode line with
  | none => .error invalidUtf8
  | some text => .ok (log.loadLine (lineText text))

/-- Take in the lines of a file, up to one that is not a text. -/
def loadBytes (log : AuditLog) (file : Option (List UInt8)) : Except String AuditLog :=
  match file with
  | none => .ok log
  | some bytes => (linesOf newline [] (bytes.map some)).foldlM loadBytesLine log

/-- Open the log on the bytes of its file. -/
def openBytes (file : Option (List UInt8)) (maxBytes maxRecords : ℕ) (hpos : 0 < maxRecords) :
    Except String AuditLog :=
  loadBytes { maxBytes, maxRecords, maxRecords_pos := hpos, nextSeq := 1, records := [] } file

/-- The log after a message has been taken into memory. -/
def push (log : AuditLog) (message : String) : AuditLog :=
  { log with
    nextSeq := saturatingAdd log.nextSeq 1
    records := Window.push log.maxRecords log.records (log.nextRecord message) }

end AuditLog

namespace AuditDisk

/-- The size of the file, or zero when it cannot be read. -/
def size (disk : AuditDisk) (sizeRead : Bool) : ℕ :=
  if sizeRead then (disk.file.getD []).length else 0

/-- Write a line at the end of the file. -/
def writeLine (disk : AuditDisk) (line : List UInt8) : DiskOutcome → AuditDisk
  | .openFailed => disk
  | .writeFailed written => { disk with file := some (disk.file.getD [] ++ line.take written) }
  | _ => { disk with file := some (disk.file.getD [] ++ line) }

/-- Write all records to the temporary file, and put it in the place of the file. -/
def rewriteDisk (disk : AuditDisk) (content : List UInt8) : DiskOutcome → AuditDisk
  | .openFailed => disk
  | .writeFailed written => { disk with temporary := some (content.take written) }
  | .syncFailed => { disk with temporary := some content }
  | .renameFailed => { disk with temporary := some content }
  | _ => { disk with file := some content, temporary := none }

/-- The record does not fit behind what the file is known to hold. -/
def Overflows (disk : AuditDisk) (log : AuditLog) (record : BoundedLogRecord)
    (sizeRead : Bool) : Prop :=
  log.maxBytes < disk.size sizeRead + recordBytes record

instance (disk : AuditDisk) (log : AuditLog) (record : BoundedLogRecord) (sizeRead : Bool) :
    Decidable (disk.Overflows log record sizeRead) :=
  inferInstanceAs (Decidable (_ < _))

/-- Write the record of memory that came last to the disk. -/
def persistRecord (disk : AuditDisk) (log : AuditLog) (record : BoundedLogRecord)
    (sizeRead : Bool) (outcome : DiskOutcome) : AuditDisk :=
  if disk.Overflows log record sizeRead then
    { disk with log := some log.trimToDiskBudget }.rewriteDisk
      (Utf8.encode (log.trimToDiskBudget.records.flatMap formatRecord)) outcome
  else { disk with log := some log }.writeLine (Utf8.encode (formatRecord record)) outcome

end AuditDisk

/-- What happens to a log and its disk. -/
inductive AuditDiskOp
  | append (message : String) (sizeRead : Bool) (outcome : DiskOutcome)
  | reopen (outcome : OpenOutcome)
  deriving DecidableEq, Repr

namespace AuditDisk

variable (maxBytes maxRecords : ℕ) (hpos : 0 < maxRecords)

/-- The log that an opening yields. -/
def openLog (disk : AuditDisk) : OpenOutcome → Option AuditLog
  | .hidden => (AuditLog.openBytes none maxBytes maxRecords hpos).toOption
  | .failed => none
  | .done => (AuditLog.openBytes disk.file maxBytes maxRecords hpos).toOption

/-- The log and its disk after an operation. Without a log nothing is appended. -/
def step (disk : AuditDisk) : AuditDiskOp → AuditDisk
  | .append message sizeRead outcome =>
    match disk.log with
    | none => disk
    | some log => disk.persistRecord (log.push message) (log.nextRecord message) sizeRead outcome
  | .reopen outcome => { disk with log := disk.openLog maxBytes maxRecords hpos outcome }

/-- The messages of the appends. -/
def messagesOf (ops : List AuditDiskOp) : List String :=
  ops.filterMap fun
    | .append message _ _ => some message
    | .reopen _ => none

/-- The records that messages get, from a sequence on. -/
def issuedFrom : UInt64 → List String → List BoundedLogRecord
  | _, [] => []
  | next, message :: rest => ⟨next, message⟩ :: issuedFrom (saturatingAdd next 1) rest

/-- The sequence after some messages. -/
def nextFrom (next : UInt64) (messages : List String) : UInt64 :=
  messages.foldl (fun next _ ↦ saturatingAdd next 1) next

theorem issuedFrom_concat (next : UInt64) (messages : List String) (message : String) :
    issuedFrom next (messages ++ [message]) =
      issuedFrom next messages ++ [⟨nextFrom next messages, message⟩] := by
  induction messages generalizing next with
  | nil => rfl
  | cons first rest ih =>
    rw [List.cons_append, issuedFrom, ih]
    rfl

theorem nextFrom_concat (next : UInt64) (messages : List String) (message : String) :
    nextFrom next (messages ++ [message]) = saturatingAdd (nextFrom next messages) 1 := by
  rw [nextFrom, List.foldl_append]
  rfl

/-! ### What an append does to memory -/

section Memory

variable (disk : AuditDisk) (log : AuditLog) (record : BoundedLogRecord) (sizeRead : Bool)
  (outcome : DiskOutcome)

@[simp] theorem log_writeLine (line : List UInt8) : (disk.writeLine line outcome).log = disk.log := by
  cases outcome <;> rfl

@[simp] theorem temporary_writeLine (line : List UInt8) :
    (disk.writeLine line outcome).temporary = disk.temporary := by
  cases outcome <;> rfl

@[simp] theorem log_rewriteDisk (content : List UInt8) :
    (disk.rewriteDisk content outcome).log = disk.log := by
  cases outcome <;> rfl

/-- Memory after an append, trimmed when the record did not fit. -/
theorem log_persistRecord :
    (disk.persistRecord log record sizeRead outcome).log =
      some (if disk.Overflows log record sizeRead then log.trimToDiskBudget else log) := by
  rw [persistRecord]
  split_ifs with hlong <;> simp

end Memory

/-- Memory after an append holds its end of what it held and the new record. -/
theorem suffix_of_log_step {disk : AuditDisk} {log after : AuditLog} {message : String}
    {sizeRead : Bool} {outcome : DiskOutcome} (hlog : disk.log = some log)
    (hafter : (disk.step maxBytes maxRecords hpos (.append message sizeRead outcome)).log =
      some after) :
    after.nextSeq = saturatingAdd log.nextSeq 1 ∧ after.maxBytes = log.maxBytes ∧
      after.maxRecords = log.maxRecords ∧
      after.records <:+ Window.push log.maxRecords log.records (log.nextRecord message) ∧
      (recordBytes (log.nextRecord message) ≤ log.maxBytes →
        after.records.getLast? = some (log.nextRecord message)) := by
  simp only [step, hlog, log_persistRecord, Option.some.injEq] at hafter
  subst hafter
  split_ifs with hlong
  · refine ⟨rfl, rfl, rfl, Window.trim_suffix _ _ _, fun hfits ↦ ?_⟩
    obtain ⟨kept, hkept⟩ := Window.exists_trim_concat recordBytes log.maxBytes hfits
      (if log.records.length = log.maxRecords then log.records.drop 1 else log.records)
    show (Window.trim recordBytes log.maxBytes (Window.push log.maxRecords log.records
      (log.nextRecord message))).getLast? = _
    rw [Window.push, hkept, List.getLast?_append]
    rfl
  · refine ⟨rfl, rfl, rfl, List.suffix_rfl, fun _ ↦ ?_⟩
    show (Window.push _ _ _).getLast? = _
    rw [Window.push, List.getLast?_append]
    rfl

/-- An append of which nothing fails is the append of the log on the texts of its files. -/
theorem step_append_done (store : AuditStore) (message : String) :
    ({ log := some store.log, file := store.file.map Utf8.encode, temporary := none } :
      AuditDisk).step maxBytes maxRecords hpos (.append message true .done) =
      { log := some (store.step (.append message)).log
        file := (store.step (.append message)).file.map Utf8.encode
        temporary := none } := by
  have hsize : ((store.file.map Utf8.encode).getD []).length =
      Text.byteLength (store.file.getD []) := by
    cases store.file with
    | none => rfl
    | some text => exact Utf8.length_encode text
  simp only [step, persistRecord, Overflows, size, hsize, AuditStore.step, AuditLog.append,
    AuditLog.persistRecord, AuditLog.push, if_true]
  split_ifs with hlong
  · rfl
  · cases hfile : store.file with
    | none => simp [writeLine]
    | some text => simp [writeLine]

end AuditDisk

/-! ### What opening takes into memory -/

namespace AuditLog

/-- A file that is missing holds no lines. -/
theorem loadBytes_eq (log : AuditLog) (file : Option (List UInt8)) :
    log.loadBytes file =
      (linesOf newline [] ((file.getD []).map some)).foldlM loadBytesLine log := by
  cases file <;> rfl

/-- What every line that is taken in keeps, the file keeps. Assumes: the file is taken in. -/
theorem loadBytes_invariant (property : AuditLog → Prop) {log loaded : AuditLog}
    {file : Option (List UInt8)}
    (hline : ∀ log line text, line ∈ linesOf newline [] ((file.getD []).map some) →
      Utf8.decode line = some text → property log → property (log.loadLine (lineText text)))
    (hlog : property log) (hload : log.loadBytes file = .ok loaded) : property loaded := by
  rw [loadBytes_eq] at hload
  generalize linesOf newline [] ((file.getD []).map some) = lines at hline hload
  induction lines generalizing log with
  | nil =>
    obtain rfl := Except.ok.inj hload
    exact hlog
  | cons line rest ih =>
    rw [List.foldlM_cons, loadBytesLine] at hload
    cases hdecode : Utf8.decode line with
    | none =>
      rw [hdecode] at hload
      cases hload
    | some text =>
      rw [hdecode] at hload
      exact ih (hline log line text List.mem_cons_self hdecode hlog)
        (fun log other text hother ↦ hline log other text (List.mem_cons_of_mem line hother)) hload

theorem length_records_loadLine {log : AuditLog} (hfew : log.records.length ≤ log.maxRecords)
    (text : List Char) : (log.loadLine text).records.length ≤ log.maxRecords := by
  rw [loadLine]
  split
  · exact hfew
  · exact Window.length_push_le log.maxRecords_pos hfew _

/-- A line leaves the limits alone. -/
theorem caps_loadLine (log : AuditLog) (text : List Char) :
    (log.loadLine text).maxBytes = log.maxBytes ∧
      (log.loadLine text).maxRecords = log.maxRecords := by
  rw [loadLine]
  split <;> exact ⟨rfl, rfl⟩

/-- The limits of an opened log, and the number of its records. Assumes: it is opened. -/
theorem caps_openBytes {file : Option (List UInt8)} {maxBytes maxRecords : ℕ}
    {hpos : 0 < maxRecords} {loaded : AuditLog}
    (hopen : openBytes file maxBytes maxRecords hpos = .ok loaded) :
    loaded.maxBytes = maxBytes ∧ loaded.maxRecords = maxRecords ∧
      loaded.records.length ≤ maxRecords := by
  refine loadBytes_invariant (fun log ↦ log.maxBytes = maxBytes ∧
    log.maxRecords = maxRecords ∧ log.records.length ≤ maxRecords)
    (fun log _ text _ _ hlog ↦ ?_) ⟨rfl, rfl, Nat.zero_le _⟩ hopen
  obtain ⟨hbytes, hrecords, hfew⟩ := hlog
  obtain ⟨hbytes', hrecords'⟩ := caps_loadLine log (lineText text)
  refine ⟨hbytes'.trans hbytes, hrecords'.trans hrecords, ?_⟩
  exact hrecords ▸ length_records_loadLine (hrecords.symm ▸ hfew) (lineText text)

end AuditLog

namespace AuditDisk

variable (maxBytes maxRecords : ℕ) (hpos : 0 < maxRecords)

theorem eq_ok_of_toOption {ε α : Type*} {result : Except ε α} {value : α}
    (hsome : result.toOption = some value) : result = .ok value := by
  cases result with
  | error error => cases hsome
  | ok other => rw [Option.some.inj hsome]

/-- An opening loads the file or nothing. Assumes: it yields a log. -/
theorem openBytes_of_openLog {disk : AuditDisk} {outcome : OpenOutcome} {loaded : AuditLog}
    (hopen : disk.openLog maxBytes maxRecords hpos outcome = some loaded) :
    ∃ file, (file = none ∨ file = disk.file) ∧
      AuditLog.openBytes file maxBytes maxRecords hpos = .ok loaded := by
  cases outcome with
  | hidden => exact ⟨none, .inl rfl, eq_ok_of_toOption hopen⟩
  | failed => cases hopen
  | done => exact ⟨disk.file, .inr rfl, eq_ok_of_toOption hopen⟩

/-! ### The bounds -/

/-- Memory and the temporary file are within the limits. -/
structure Bounded (disk : AuditDisk) : Prop where
  temporary : (disk.temporary.getD []).length ≤ maxBytes
  caps : ∀ log, disk.log = some log → log.maxBytes = maxBytes ∧ log.maxRecords = maxRecords ∧
    log.records.length ≤ maxRecords

/-- Trimmed memory fits the file. -/
theorem length_encode_trimToDiskBudget (log : AuditLog) :
    (Utf8.encode (log.trimToDiskBudget.records.flatMap formatRecord)).length ≤ log.maxBytes := by
  rw [Utf8.length_encode, Text.byteLength_flatMap]
  exact Window.sum_trim_le recordBytes log.maxBytes log.records

/-- A rewrite writes no more to the temporary file than the content. -/
theorem length_temporary_rewriteDisk (disk : AuditDisk) {content : List UInt8} {limit : ℕ}
    (hcontent : content.length ≤ limit) (htemporary : (disk.temporary.getD []).length ≤ limit)
    (outcome : DiskOutcome) :
    ((disk.rewriteDisk content outcome).temporary.getD []).length ≤ limit := by
  cases outcome with
  | openFailed => exact htemporary
  | writeFailed written => exact (List.length_take_le' _ _).trans hcontent
  | syncFailed => exact hcontent
  | renameFailed => exact hcontent
  | permissionsFailed => exact Nat.zero_le _
  | done => exact Nat.zero_le _

/-- A rewrite replaces the file or leaves it alone. -/
theorem file_rewriteDisk_cases (disk : AuditDisk) (content : List UInt8) (outcome : DiskOutcome) :
    (disk.rewriteDisk content outcome).file = disk.file ∨
      (disk.rewriteDisk content outcome).file = some content := by
  cases outcome with
  | permissionsFailed => exact .inr rfl
  | done => exact .inr rfl
  | _ => exact .inl rfl

/-- A write at the end of the file adds at most the line. -/
theorem length_writeLine (disk : AuditDisk) (line : List UInt8) (outcome : DiskOutcome) :
    ((disk.writeLine line outcome).file.getD []).length ≤
      (disk.file.getD []).length + line.length := by
  cases outcome with
  | openFailed => exact Nat.le_add_right _ _
  | writeFailed written =>
    refine (List.length_append).trans_le (Nat.add_le_add_left ?_ _)
    exact List.length_take_le' _ _
  | syncFailed => exact (List.length_append).le
  | renameFailed => exact (List.length_append).le
  | permissionsFailed => exact (List.length_append).le
  | done => exact (List.length_append).le

/-- The limits of the log that an opening yields, and the number of its records. Assumes: it yields
one. -/
theorem caps_openLog {disk : AuditDisk} {outcome : OpenOutcome} {loaded : AuditLog}
    (hopen : disk.openLog maxBytes maxRecords hpos outcome = some loaded) :
    loaded.maxBytes = maxBytes ∧ loaded.maxRecords = maxRecords ∧
      loaded.records.length ≤ maxRecords := by
  obtain ⟨_, _, hload⟩ := openBytes_of_openLog maxBytes maxRecords hpos hopen
  exact AuditLog.caps_openBytes hload

/-- No operation leaves the limits, whatever fails. Assumes: the state is within them. -/
theorem bounded_step {disk : AuditDisk} (hbounded : disk.Bounded maxBytes maxRecords)
    (op : AuditDiskOp) : (disk.step maxBytes maxRecords hpos op).Bounded maxBytes maxRecords := by
  cases op with
  | reopen outcome =>
    exact ⟨hbounded.temporary, fun log hlog ↦ caps_openLog maxBytes maxRecords hpos hlog⟩
  | append message sizeRead outcome =>
    cases hlog : disk.log with
    | none => simpa [step, hlog] using hbounded
    | some log =>
      obtain ⟨hmax, hrecords, hfew⟩ := hbounded.caps log hlog
      refine ⟨?_, fun after hafter ↦ ?_⟩
      · simp only [step, hlog, persistRecord]
        split_ifs with hlong
        · have hcontent := length_encode_trimToDiskBudget (log.push message)
          have hpushed : (log.push message).maxBytes = maxBytes := hmax
          rw [hpushed] at hcontent
          exact length_temporary_rewriteDisk
            { disk with log := some (log.push message).trimToDiskBudget } hcontent
            hbounded.temporary outcome
        · rw [temporary_writeLine]
          exact hbounded.temporary
      · obtain ⟨_, hbytes, hcap, hsuffix, _⟩ :=
          suffix_of_log_step maxBytes maxRecords hpos hlog hafter
        refine ⟨hbytes.trans hmax, hcap.trans hrecords, hsuffix.length_le.trans ?_⟩
        exact hrecords ▸ Window.length_push_le log.maxRecords_pos (hrecords.symm ▸ hfew) _

/-- The record of an append that cannot read the size of the file. -/
def blindRecord (disk : AuditDisk) : AuditDiskOp → Option BoundedLogRecord
  | .append message false _ => disk.log.map fun log ↦ log.nextRecord message
  | _ => none

/-- An operation keeps the file within a limit, up to the record of an append that cannot read its
size. Assumes: memory is within its limits, and the file within a limit that is not below its own. -/
theorem length_file_step {disk : AuditDisk} (hbounded : disk.Bounded maxBytes maxRecords)
    {limit : ℕ} (hlimit : maxBytes ≤ limit) (hfile : (disk.file.getD []).length ≤ limit)
    (op : AuditDiskOp) :
    ((disk.step maxBytes maxRecords hpos op).file.getD []).length ≤
      limit + ((disk.blindRecord op).toList.map recordBytes).sum := by
  cases op with
  | reopen outcome => exact hfile.trans (Nat.le_add_right _ _)
  | append message sizeRead outcome =>
    cases hlog : disk.log with
    | none => simpa [step, hlog, blindRecord] using hfile.trans (Nat.le_add_right _ _)
    | some log =>
      obtain ⟨hmax, _, _⟩ := hbounded.caps log hlog
      have hpushed : (log.push message).maxBytes = maxBytes := hmax
      simp only [step, hlog, persistRecord]
      split_ifs with hlong
      · refine le_trans ?_ (Nat.le_add_right _ _)
        rcases file_rewriteDisk_cases { disk with log := some (log.push message).trimToDiskBudget }
          (Utf8.encode ((log.push message).trimToDiskBudget.records.flatMap formatRecord))
          outcome with hsame | hcontent
        · rw [hsame]
          exact hfile
        · rw [hcontent]
          refine (length_encode_trimToDiskBudget (log.push message)).trans ?_
          exact hpushed.trans_le hlimit
      · have hadded := length_writeLine { disk with log := some (log.push message) }
          (Utf8.encode (formatRecord (log.nextRecord message))) outcome
        rw [Utf8.length_encode] at hadded
        refine hadded.trans ?_
        cases sizeRead with
        | true =>
          rw [Overflows, hpushed, not_lt] at hlong
          exact (hlong.trans hlimit).trans (Nat.le_add_right _ _)
        | false =>
          have hblind : disk.blindRecord (.append message false outcome) =
              some (log.nextRecord message) := by rw [blindRecord, hlog, Option.map_some]
          rw [hblind, Option.toList_some, List.map_singleton, List.sum_singleton]
          exact Nat.add_le_add_right hfile _

/-- An append that reads the size and of which nothing fails takes the file back into its limit.
Assumes: memory is within its limits, and there is a log. -/
theorem length_file_step_done {disk : AuditDisk} (hbounded : disk.Bounded maxBytes maxRecords)
    {log : AuditLog} (hlog : disk.log = some log) (message : String) :
    ((disk.step maxBytes maxRecords hpos (.append message true .done)).file.getD []).length ≤
      maxBytes := by
  obtain ⟨hmax, _, _⟩ := hbounded.caps log hlog
  have hpushed : (log.push message).maxBytes = maxBytes := hmax
  simp only [step, hlog, persistRecord]
  split_ifs with hlong
  · exact (length_encode_trimToDiskBudget (log.push message)).trans hpushed.le
  · rw [Overflows, hpushed, not_lt] at hlong
    have hadded := length_writeLine { disk with log := some (log.push message) }
      (Utf8.encode (formatRecord (log.nextRecord message))) .done
    rw [Utf8.length_encode] at hadded
    exact hadded.trans hlong

section Runs

variable (begin : AuditDisk) (ops : List AuditDiskOp)

/-- The disk before the operation at an index of a run. -/
def diskAt (index : ℕ) : AuditDisk := stateAt (step maxBytes maxRecords hpos) begin ops index

/-- The bytes of the records that were appended before an index while the size of the file could not
be read. -/
def blindBytes (index : ℕ) : ℕ :=
  ((Run.log (step maxBytes maxRecords hpos) blindRecord begin ops index).map recordBytes).sum

/-- The file is within its limit, up to the records that were appended without knowing its size.
Assumes: it is at the start, and there is no log. -/
theorem length_file_diskAt (hfile : (begin.file.getD []).length ≤ maxBytes)
    (hbounded : begin.Bounded maxBytes maxRecords) (index : ℕ) :
    ((diskAt maxBytes maxRecords hpos begin ops index).file.getD []).length ≤
      maxBytes + blindBytes maxBytes maxRecords hpos begin ops index := by
  induction index with
  | zero => exact hfile
  | succ index ih =>
    cases hop : ops[index]? with
    | none =>
      rw [diskAt, stateAt_succ_of_none _ _ _ hop, blindBytes, Run.log, hop]
      simpa [blindBytes, diskAt] using ih
    | some op =>
      have hbefore : (diskAt maxBytes maxRecords hpos begin ops index).Bounded maxBytes maxRecords :=
        stateAt_invariant _ begin ops (Bounded maxBytes maxRecords) hbounded
          (fun _ op hbefore ↦ bounded_step maxBytes maxRecords hpos hbefore op) index
      have hstep := length_file_step maxBytes maxRecords hpos hbefore (Nat.le_add_right _ _) ih op
      rw [diskAt, stateAt_succ _ _ _ hop, blindBytes, Run.log, hop, Option.bind_some, List.map_append,
        List.sum_append, ← Nat.add_assoc]
      exact hstep

/-- The log at an index was opened at an earlier one, and only appends came since. -/
structure OpenedAt (opened index : ℕ) (loaded : AuditLog) : Prop where
  lt : opened < index
  opens : ∃ outcome, ops[opened]? = some (.reopen outcome) ∧
    (diskAt maxBytes maxRecords hpos begin ops opened).openLog maxBytes maxRecords hpos outcome =
      some loaded
  appends : ∀ between outcome, opened < between → between < index →
    ops[between]? ≠ some (.reopen outcome)

variable {maxBytes maxRecords hpos begin ops} in
theorem OpenedAt.succ {opened index : ℕ} {loaded : AuditLog}
    (hopened : OpenedAt maxBytes maxRecords hpos begin ops opened index loaded)
    (hop : ∀ outcome, ops[index]? ≠ some (.reopen outcome)) :
    OpenedAt maxBytes maxRecords hpos begin ops opened (index + 1) loaded := by
  refine ⟨hopened.lt.trans (Nat.lt_succ_self _), hopened.opens,
    fun between outcome hafter hbefore ↦ ?_⟩
  rcases Nat.lt_succ_iff_lt_or_eq.mp hbefore with hlt | rfl
  · exact hopened.appends between outcome hafter hlt
  · exact hop outcome

/-- Memory holds an end of what was loaded and of the records that were issued since. Assumes: no log
at the start, and one at the index. -/
theorem memory_diskAt (hnone : begin.log = none) {index : ℕ} {log : AuditLog}
    (hlog : (diskAt maxBytes maxRecords hpos begin ops index).log = some log) :
    ∃ opened loaded, OpenedAt maxBytes maxRecords hpos begin ops opened index loaded ∧
      log.nextSeq = nextFrom loaded.nextSeq (messagesOf ((ops.take index).drop (opened + 1))) ∧
      log.records <:+ loaded.records ++
        issuedFrom loaded.nextSeq (messagesOf ((ops.take index).drop (opened + 1))) := by
  induction index generalizing log with
  | zero =>
    rw [diskAt, stateAt_zero, hnone] at hlog
    cases hlog
  | succ index ih =>
    cases hop : ops[index]? with
    | none =>
      rw [diskAt, stateAt_succ_of_none _ _ _ hop] at hlog
      obtain ⟨opened, loaded, hopened, hnext, hsuffix⟩ := ih hlog
      refine ⟨opened, loaded, hopened.succ (by simp [hop]), ?_⟩
      rw [List.take_add_one, hop]
      simpa using ⟨hnext, hsuffix⟩
    | some op =>
      rw [diskAt, stateAt_succ _ _ _ hop] at hlog
      cases op with
      | reopen outcome =>
        refine ⟨index, log, ⟨Nat.lt_succ_self _, ⟨outcome, hop, hlog⟩,
          fun between _ hafter hbefore ↦ by omega⟩, ?_⟩
        rw [List.drop_of_length_le (List.length_take_le _ _)]
        exact ⟨rfl, by simp [messagesOf, issuedFrom]⟩
      | append message sizeRead outcome =>
        cases hbefore : (diskAt maxBytes maxRecords hpos begin ops index).log with
        | none =>
          rw [diskAt] at hbefore
          simp only [step, hbefore] at hlog
          cases hlog
        | some before =>
          obtain ⟨opened, loaded, hopened, hnext, hsuffix⟩ := ih hbefore
          obtain ⟨hseq, _, _, hpushed, _⟩ :=
            suffix_of_log_step maxBytes maxRecords hpos hbefore hlog
          have hmessages : messagesOf ((ops.take (index + 1)).drop (opened + 1)) =
              messagesOf ((ops.take index).drop (opened + 1)) ++ [message] := by
            have hlength := (List.getElem?_eq_some_iff.mp hop).1
            have hreach : opened + 1 ≤ (ops.take index).length := by
              have hlt := hopened.lt
              rw [List.length_take]
              omega
            rw [List.take_add_one, hop, List.drop_append_of_le_length hreach, messagesOf,
              List.filterMap_append]
            rfl
          refine ⟨opened, loaded, hopened.succ (by simp [hop]), ?_, ?_⟩
          · rw [hseq, hmessages, nextFrom_concat, hnext]
          · rw [hmessages, issuedFrom_concat, ← hnext, ← List.append_assoc]
            refine hpushed.trans ((Window.push_suffix _ _ _).trans ?_)
            exact List.suffix_append_self_iff.mpr hsuffix

end Runs

end AuditDisk

/-! ### Reading back what was written -/

/-- A line of a file reads as a record. -/
def ReadsAs (line : List UInt8) (record : BoundedLogRecord) : Prop :=
  ∃ text, Utf8.decode line = some text ∧ parseRecord (AuditLog.lineText text) = some record

theorem newline_not_mem_replaceChar (text : List Char) :
    '\n' ∉ Text.replaceChar '\n' [' '] text := by
  intro hmem
  obtain ⟨character, _, hcharacter⟩ := List.mem_flatMap.mp hmem
  split_ifs at hcharacter with heq
  · exact absurd (List.mem_singleton.mp hcharacter) (by decide)
  · exact heq (List.mem_singleton.mp hcharacter).symm

/-- The bytes of a record are one line. -/
theorem isLine_encode_formatRecord (record : BoundedLogRecord) :
    IsLine newline (Utf8.encode (formatRecord record)) := by
  refine ⟨Utf8.encode (Nat.toDigits 10 record.sequence.toNat ++ '\t' ::
    Text.replaceChar '\n' [' '] record.message.toList), fun hmem ↦ ?_, ?_⟩
  · obtain ⟨character, hcharacter, hcode⟩ := Utf8.exists_of_mem_encode (by decide) hmem
    obtain rfl : character = '\n' := Char.toNat_inj.mp hcode
    rcases List.mem_append.mp hcharacter with hdigits | hrest
    · exact Text.not_mem_toDigits (by decide) _ hdigits
    · rcases List.mem_cons.mp hrest with heq | hmessage
      · exact absurd heq (by decide)
      · exact newline_not_mem_replaceChar _ hmessage
  · rw [formatRecord, Utf8.encode_append]
    rfl

/-- The line of a record reads as the record. Assumes: its message is plain. -/
theorem readsAs_formatRecord {record : BoundedLogRecord} (hplain : PlainMessage record.message) :
    ReadsAs (Utf8.encode (formatRecord record)) record := by
  refine ⟨formatRecord record, Utf8.decode_encode _, ?_⟩
  have htext : AuditLog.lineText (formatRecord record) = recordLine record := by
    rw [AuditLog.lineText, formatRecord_eq hplain, List.getLast?_concat, if_pos rfl,
      List.dropLast_concat, Text.stripReturn, if_neg (getLast?_recordLine hplain)]
  rw [htext, parseRecord_recordLine]

/-- A part of a line that begins as a record does. -/
def StartsRecord (part : List UInt8) : Prop :=
  ∃ digit rest, part = digit :: rest ∧ 49 ≤ digit.toNat ∧ digit.toNat ≤ 57

/-- A text whose bytes end as a record's line does has no carriage return at its end. Assumes: the
bytes, and a plain message. -/
theorem getLast?_ne_return_of_encode {part : List UInt8} {line : List Char}
    {record : BoundedLogRecord} (hplain : PlainMessage record.message)
    (hline : Utf8.encode line = part ++ Utf8.encode (recordLine record)) :
    line.getLast? ≠ some '\r' := by
  intro hend
  obtain ⟨before, rfl⟩ := List.getLast?_eq_some_iff.mp hend
  obtain ⟨start, character, hstart⟩ := (List.eq_nil_or_concat (recordLine record)).resolve_left
    (by simp [recordLine])
  rw [List.concat_eq_append] at hstart
  rw [hstart, Utf8.encode_append, Utf8.encode_append, ← List.append_assoc] at hline
  have hreturn : (13 : UInt8) ∈ Utf8.encode [character] := by
    have hne : Utf8.encode [character] ≠ [] := by
      rw [ne_eq, ← List.length_eq_zero_iff, Utf8.length_encode]
      simp [Text.byteLength, (Char.utf8Size_pos character).ne']
    have hsame := congrArg List.getLast? hline
    rw [List.getLast?_append, List.getLast?_append_of_ne_nil _ hne] at hsame
    exact List.mem_of_getLast? hsame.symm
  obtain ⟨other, hother, hcode⟩ := Utf8.exists_of_mem_encode (by decide) hreturn
  obtain rfl := List.mem_singleton.mp hother
  obtain rfl : other = '\r' := Char.toNat_inj.mp hcode
  exact getLast?_recordLine hplain (by rw [hstart, List.getLast?_concat])

/-- The line of a record behind a part of another record reads as something else. Assumes: the part,
and a plain message. -/
theorem not_readsAs_of_startsRecord {part : List UInt8} {record : BoundedLogRecord}
    (hpart : StartsRecord part) (hplain : PlainMessage record.message) :
    ¬ ReadsAs (part ++ Utf8.encode (formatRecord record)) record := by
  rintro ⟨text, hdecode, hparse⟩
  obtain ⟨digit, others, rfl, hlow, hhigh⟩ := hpart
  have hbytes := (Utf8.decode_eq_some_iff _ _).mp hdecode
  rw [formatRecord_eq hplain, Utf8.encode_append, ← List.append_assoc] at hbytes
  -- The text is a line whose end is the newline of the record.
  obtain ⟨line, last, rfl, hlast, hline⟩ := Utf8.exists_concat_of_encode (by decide) hbytes.symm
  obtain rfl : last = '\n' := Char.toNat_inj.mp hlast
  rw [AuditLog.lineText, List.getLast?_concat, if_pos rfl, List.dropLast_concat, Text.stripReturn,
    if_neg (getLast?_ne_return_of_encode hplain hline), parseRecord] at hparse
  split at hparse
  · cases hparse
  · next sequence message hsplit =>
    obtain ⟨value, hvalue, hrecord⟩ := Option.map_eq_some_iff.mp hparse
    have htext := Text.eq_append_of_splitOnce hsplit
    subst hrecord
    have hsequence : (UInt64.ofNat value).toNat = value :=
      UInt64.toNat_ofNat_of_lt' (Text.lt_of_parseUnsigned hvalue)
    -- The numeral that is read has as many digits as the part and the numeral that was written.
    have hlength : sequence.length = (digit :: others).length + (Nat.toDigits 10 value).length := by
      have hsame := congrArg List.length hline
      rw [List.length_append, Utf8.length_encode, Utf8.length_encode, htext, recordLine, hsequence,
        Text.byteLength_append, Text.byteLength_append, Text.byteLength_of_parseUnsigned hvalue,
        Text.byteLength_of_parseUnsigned (Text.parseUnsigned_toDigits (Nat.lt_succ_self value)),
        String.toList_ofList] at hsame
      omega
    obtain ⟨first, rest, hfirst, hcode⟩ := Utf8.exists_cons_of_encode (by omega)
      (hline.trans (List.cons_append ..))
    cases sequence with
    | nil =>
      rw [List.length_nil, List.length_cons] at hlength
      omega
    | cons head tail =>
      rw [htext, List.cons_append] at hfirst
      obtain ⟨rfl, _⟩ := List.cons.inj hfirst
      have hshort := Text.length_le_of_parseUnsigned (by omega) hvalue
      rw [hlength, List.length_cons] at hshort
      omega

namespace AuditLog

/-- The last record that lines bring in is held by one of them, or was there before. Assumes: the
lines are taken in. -/
theorem readsAs_of_getLast? {lines : List (List UInt8)} {log loaded : AuditLog}
    (hload : lines.foldlM loadBytesLine log = .ok loaded) {record : BoundedLogRecord}
    (hlast : loaded.records.getLast? = some record) :
    log.records.getLast? = some record ∨ ∃ line ∈ lines, ReadsAs line record := by
  induction lines generalizing log with
  | nil =>
    obtain rfl := Except.ok.inj hload
    exact .inl hlast
  | cons line rest ih =>
    rw [List.foldlM_cons, loadBytesLine] at hload
    cases hdecode : Utf8.decode line with
    | none =>
      rw [hdecode] at hload
      cases hload
    | some text =>
      rw [hdecode] at hload
      rcases ih hload with hbefore | ⟨other, hother, hreads⟩
      · rw [loadLine] at hbefore
        cases hparse : parseRecord (lineText text) with
        | none =>
          rw [hparse] at hbefore
          exact .inl hbefore
        | some parsed =>
          simp only [hparse, Window.push, List.getLast?_concat] at hbefore
          obtain rfl := Option.some.inj hbefore
          exact .inr ⟨line, List.mem_cons_self, text, hdecode, hparse⟩
      · exact .inr ⟨other, List.mem_cons_of_mem line hother, hreads⟩

/-- Taking in one more line. -/
theorem foldlM_concat_eq_ok {lines : List (List UInt8)} {line : List UInt8}
    {log loaded : AuditLog} :
    (lines ++ [line]).foldlM loadBytesLine log = .ok loaded ↔
      ∃ before text, lines.foldlM loadBytesLine log = .ok before ∧ Utf8.decode line = some text ∧
        loaded = before.loadLine (lineText text) := by
  rw [List.foldlM_append]
  constructor
  · intro hload
    cases hbefore : lines.foldlM loadBytesLine log with
    | error error =>
      rw [hbefore] at hload
      cases hload
    | ok before =>
      rw [hbefore] at hload
      cases hdecode : Utf8.decode line with
      | none =>
        exfalso
        revert hload
        show (List.foldlM loadBytesLine before [line] = .ok loaded) → False
        rw [List.foldlM_cons, loadBytesLine, hdecode]
        exact nofun
      | some text =>
        refine ⟨before, text, rfl, rfl, ?_⟩
        revert hload
        show (List.foldlM loadBytesLine before [line] = .ok loaded) → _
        rw [List.foldlM_cons, loadBytesLine, hdecode]
        exact fun hload ↦ (Except.ok.inj hload).symm
  · rintro ⟨before, text, hbefore, hdecode, rfl⟩
    rw [hbefore]
    show List.foldlM loadBytesLine before [line] = _
    rw [List.foldlM_cons, loadBytesLine, hdecode]
    rfl

/-- The sequence of an opened log is not zero. Assumes: it is opened. -/
theorem nextSeq_pos_of_openBytes {file : Option (List UInt8)} {maxBytes maxRecords : ℕ}
    {hpos : 0 < maxRecords} {loaded : AuditLog}
    (hopen : openBytes file maxBytes maxRecords hpos = .ok loaded) : 0 < loaded.nextSeq.toNat := by
  refine loadBytes_invariant (fun log ↦ 0 < log.nextSeq.toNat) (fun log _ text _ _ hlog ↦ ?_) ?_
    hopen
  · rw [loadLine]
    split
    · exact hlog
    · dsimp only
      split_ifs
      · rw [toNat_saturatingAdd_one_eq]
        omega
      · exact hlog
  · exact Nat.one_pos

end AuditLog

/-- Whether an append has written its whole record when it ends so. -/
def DiskOutcome.writes : DiskOutcome → Bool
  | .openFailed => false
  | .writeFailed _ => false
  | _ => true

namespace AuditDisk

variable (maxBytes maxRecords : ℕ) (hpos : 0 < maxRecords)

/-- One of the lines of the file reads as a record. -/
def HoldsRecord (disk : AuditDisk) (record : BoundedLogRecord) : Prop :=
  ∃ line ∈ linesOf newline [] ((disk.file.getD []).map some), ReadsAs line record

/-- A write that stops inside its record. -/
def Tears (disk : AuditDisk) : AuditDiskOp → Prop
  | .append message sizeRead (.writeFailed written) =>
    ∃ log, disk.log = some log ∧
      ¬ disk.Overflows (log.push message) (log.nextRecord message) sizeRead ∧
      0 < written ∧ written < recordBytes (log.nextRecord message)
  | _ => False

/-- What follows the last newline of the file. -/
def tornPart (disk : AuditDisk) : List UInt8 := lineAfter newline [] (disk.file.getD [])

/-- What follows the last newline is nothing or begins as a record does, and sequences are not
zero. -/
structure Stands (disk : AuditDisk) : Prop where
  part : disk.tornPart = [] ∨ StartsRecord disk.tornPart
  next : ∀ log, disk.log = some log → 0 < log.nextSeq.toNat

/-- A record is a line that begins with the numeral of its sequence. Assumes: the sequence is not
zero. -/
theorem startsRecord_of_begins {record : BoundedLogRecord} (hpos : 0 < record.sequence.toNat)
    {part : List UInt8} (hpart : part <+: Utf8.encode (formatRecord record)) (hne : part ≠ []) :
    StartsRecord part := by
  obtain ⟨digit, rest, hdigits, hlow, hhigh⟩ := Text.exists_head_toDigits hpos
  have hsize : digit.utf8Size = 1 := by
    rw [Char.utf8Size_eq_one_iff]
    exact UInt32.le_iff_toNat_le.mpr (hhigh.trans (by decide))
  obtain ⟨first, others, rfl⟩ := List.exists_cons_of_ne_nil hne
  rw [formatRecord, hdigits, List.cons_append, List.cons_append, Utf8.encode_cons,
    String.utf8EncodeChar_eq_singleton hsize, List.singleton_append, List.cons_prefix_cons] at hpart
  refine ⟨first, others, rfl, ?_⟩
  rw [hpart.1, UInt32.toNat_toUInt8]
  show 49 ≤ digit.toNat % 256 ∧ digit.toNat % 256 ≤ 57
  omega

/-- A write leaves a part of a line only when it stops inside its record. -/
theorem tornPart_append (part : List UInt8) (record : BoundedLogRecord)
    (written : List UInt8) (hwritten : written <+: Utf8.encode (formatRecord record)) :
    (written = Utf8.encode (formatRecord record) ∧ lineAfter newline part written = []) ∨
      (written ≠ Utf8.encode (formatRecord record) ∧
        lineAfter newline part written = part ++ written) :=
  lineAfter_of_prefix newline part (isLine_encode_formatRecord record) hwritten

/-- All of memory is whole lines. -/
theorem lineAfter_flatMap_formatRecord (records : List BoundedLogRecord) :
    lineAfter newline [] (Utf8.encode (records.flatMap formatRecord)) = [] := by
  induction records with
  | nil => rfl
  | cons record rest ih =>
    rw [List.flatMap_cons, Utf8.encode_append, lineAfter_append]
    rcases tornPart_append [] record _ List.prefix_rfl with ⟨_, hnil⟩ | ⟨hne, _⟩
    · rw [hnil, ih]
    · exact absurd rfl hne

/-- What a write at the end of the file adds to it: a start of the line, and all of it when the
append has written it. -/
theorem exists_written (disk : AuditDisk) (line : List UInt8) (outcome : DiskOutcome) :
    ∃ written, (disk.writeLine line outcome).file.getD [] = disk.file.getD [] ++ written ∧
      written <+: line ∧ (outcome.writes = true → written = line) ∧
      ((∀ length, outcome = .writeFailed length → length = 0 ∨ line.length ≤ length) →
        written = [] ∨ written = line) := by
  cases outcome with
  | openFailed => exact ⟨[], by simp [writeLine], List.nil_prefix, nofun, fun _ ↦ .inl rfl⟩
  | writeFailed length =>
    refine ⟨line.take length, rfl, List.take_prefix _ _, nofun, fun huntorn ↦ ?_⟩
    rcases huntorn length rfl with rfl | hwhole
    · exact .inl rfl
    · exact .inr (List.take_of_length_le hwhole)
  | syncFailed => exact ⟨line, rfl, List.prefix_rfl, fun _ ↦ rfl, fun _ ↦ .inr rfl⟩
  | renameFailed => exact ⟨line, rfl, List.prefix_rfl, fun _ ↦ rfl, fun _ ↦ .inr rfl⟩
  | permissionsFailed => exact ⟨line, rfl, List.prefix_rfl, fun _ ↦ rfl, fun _ ↦ .inr rfl⟩
  | done => exact ⟨line, rfl, List.prefix_rfl, fun _ ↦ rfl, fun _ ↦ .inr rfl⟩

/-- What an append does to the part after the last newline. Assumes: there is a log. -/
theorem tornPart_append_cases {disk : AuditDisk} {log : AuditLog} (hlog : disk.log = some log)
    (message : String) (sizeRead : Bool) (outcome : DiskOutcome) :
    let after := disk.step maxBytes maxRecords hpos (.append message sizeRead outcome)
    after.tornPart = disk.tornPart ∨ after.tornPart = [] ∨
      (disk.Tears (.append message sizeRead outcome) ∧
        ∃ written, written <+: Utf8.encode (formatRecord (log.nextRecord message)) ∧ written ≠ [] ∧
          after.tornPart = disk.tornPart ++ written) := by
  intro after
  have hafter : after =
      disk.persistRecord (log.push message) (log.nextRecord message) sizeRead outcome := by
    simp only [after, step, hlog]
  rw [hafter, persistRecord]
  split_ifs with hlong
  · rcases file_rewriteDisk_cases { disk with log := some (log.push message).trimToDiskBudget }
      (Utf8.encode ((log.push message).trimToDiskBudget.records.flatMap formatRecord)) outcome with
      hsame | hcontent
    · exact .inl (by rw [tornPart, hsame]; rfl)
    · exact .inr (.inl (by rw [tornPart, hcontent]; exact lineAfter_flatMap_formatRecord _))
  · obtain ⟨written, hfile, hpart, _, huntorn⟩ := exists_written
      { disk with log := some (log.push message) }
      (Utf8.encode (formatRecord (log.nextRecord message))) outcome
    have htorn : (({ disk with log := some (log.push message) } : AuditDisk).writeLine
        (Utf8.encode (formatRecord (log.nextRecord message))) outcome).tornPart =
        lineAfter newline disk.tornPart written := by
      rw [tornPart, hfile, lineAfter_append]
      rfl
    rw [htorn]
    rcases tornPart_append disk.tornPart _ written hpart with ⟨_, hnil⟩ | ⟨hshort, happend⟩
    · exact .inr (.inl hnil)
    · by_cases hempty : written = []
      · exact .inl (by rw [happend, hempty, List.append_nil])
      · refine .inr (.inr ⟨?_, written, hpart, hempty, happend⟩)
        by_contra hnot
        have hlengths : ∀ length, outcome = .writeFailed length →
            length = 0 ∨ (Utf8.encode (formatRecord (log.nextRecord message))).length ≤ length := by
          rintro length rfl
          by_contra hinside
          rw [not_or, not_le, Utf8.length_encode] at hinside
          exact hnot ⟨log, hlog, hlong, Nat.pos_of_ne_zero hinside.1, hinside.2⟩
        rcases huntorn hlengths with hnil | hwhole
        · exact hempty hnil
        · exact hshort hwhole

/-- An operation that tears nothing leaves the file where a line starts. Assumes: the file ends
there, and nothing is torn. -/
theorem tornPart_step_of_not_tears {disk : AuditDisk} {op : AuditDiskOp}
    (hstart : disk.tornPart = []) (huntorn : ¬ disk.Tears op) :
    (disk.step maxBytes maxRecords hpos op).tornPart = [] := by
  cases op with
  | reopen outcome => exact hstart
  | append message sizeRead outcome =>
    cases hlog : disk.log with
    | none => simpa [step, hlog] using hstart
    | some log =>
      rcases tornPart_append_cases maxBytes maxRecords hpos hlog message sizeRead outcome with
        hsame | hnil | ⟨htears, _⟩
      · exact hsame.trans hstart
      · exact hnil
      · exact absurd htears huntorn

/-- Every operation keeps the form of the torn part. Assumes: it has the form. -/
theorem stands_step {disk : AuditDisk} (hstands : disk.Stands) (op : AuditDiskOp) :
    (disk.step maxBytes maxRecords hpos op).Stands := by
  cases op with
  | reopen outcome =>
    refine ⟨hstands.part, fun log hlog ↦ ?_⟩
    obtain ⟨_, _, hload⟩ := openBytes_of_openLog maxBytes maxRecords hpos hlog
    exact AuditLog.nextSeq_pos_of_openBytes hload
  | append message sizeRead outcome =>
    cases hlog : disk.log with
    | none => simpa [step, hlog] using hstands
    | some log =>
      refine ⟨?_, fun after hafter ↦ ?_⟩
      · rcases tornPart_append_cases maxBytes maxRecords hpos hlog message sizeRead outcome with
          hsame | hnil | ⟨_, written, hwritten, hne, happend⟩
        · rw [hsame]
          exact hstands.part
        · exact .inl hnil
        · rw [happend]
          rcases hstands.part with hstart | ⟨digit, rest, hpart, hrange⟩
          · rw [hstart, List.nil_append]
            exact .inr (startsRecord_of_begins (hstands.next log hlog) hwritten hne)
          · exact .inr ⟨digit, rest ++ written, by rw [hpart, List.cons_append], hrange⟩
      · obtain ⟨hnext, _⟩ := suffix_of_log_step maxBytes maxRecords hpos hlog hafter
        rw [hnext, toNat_saturatingAdd_one_eq]
        omega

/-- Opening after an append that has written its record finds it as the last one exactly when it was
written where a line starts and the lines before are texts. Assumes: the form of the torn part, a log,
an append that writes behind the file, a plain message, and that no line reads as the record yet. -/
theorem opened_after_append_iff {disk : AuditDisk} (hstands : disk.Stands) {log : AuditLog}
    (hlog : disk.log = some log) {message : String} {sizeRead : Bool} {outcome : DiskOutcome}
    (hwrites : outcome.writes = true)
    (hfits : ¬ disk.Overflows (log.push message) (log.nextRecord message) sizeRead)
    (hplain : PlainMessage message) (hnew : ¬ disk.HoldsRecord (log.nextRecord message)) :
    (∃ reopened, AuditLog.openBytes
        (disk.step maxBytes maxRecords hpos (.append message sizeRead outcome)).file maxBytes
        maxRecords hpos = .ok reopened ∧ reopened.records.getLast? = some (log.nextRecord message)) ↔
      (∃ before, AuditLog.openBytes disk.file maxBytes maxRecords hpos = .ok before) ∧
        disk.tornPart = [] := by
  set record := log.nextRecord message with hrecord
  obtain ⟨written, hfile, _, hwhole, _⟩ := exists_written { disk with log := some (log.push message) }
    (Utf8.encode (formatRecord record)) outcome
  rw [hwhole hwrites] at hfile
  have hafter : (disk.step maxBytes maxRecords hpos (.append message sizeRead outcome)).file.getD
      [] = disk.file.getD [] ++ Utf8.encode (formatRecord record) := by
    simp only [step, hlog, persistRecord]
    rw [if_neg hfits]
    exact hfile
  -- The lines before, and the lines after, in which the record stands behind the torn part.
  obtain ⟨whole, hlines⟩ := exists_whole_linesOf newline [] (disk.file.getD [])
  have hbefore : linesOf newline [] ((disk.file.getD []).map some) =
      whole ++ if disk.tornPart = [] then [] else [disk.tornPart] := by
    have hrest := hlines []
    rw [List.append_nil] at hrest
    exact hrest
  have hlater : linesOf newline [] (((disk.step maxBytes maxRecords hpos
      (.append message sizeRead outcome)).file.getD []).map some) =
      whole ++ [disk.tornPart ++ Utf8.encode (formatRecord record)] := by
    rw [hafter, List.map_append, hlines, linesOf_of_isLine _ _ (isLine_encode_formatRecord record)]
    rfl
  rw [AuditLog.openBytes, AuditLog.loadBytes_eq, hlater, AuditLog.openBytes,
    AuditLog.loadBytes_eq, hbefore]
  constructor
  · rintro ⟨reopened, hload, hlast⟩
    obtain ⟨before, text, hwholeLoad, hdecode, rfl⟩ := AuditLog.foldlM_concat_eq_ok.mp hload
    have hstart : disk.tornPart = [] := by
      by_contra htorn
      rw [AuditLog.loadLine] at hlast
      cases hparse : parseRecord (AuditLog.lineText text) with
      | none =>
        rw [hparse] at hlast
        rcases AuditLog.readsAs_of_getLast? hwholeLoad hlast with hnone | ⟨line, hline, hreads⟩
        · cases hnone
        · exact hnew ⟨line, hbefore ▸ List.mem_append_left _ hline, hreads⟩
      | some parsed =>
        simp only [hparse, Window.push, List.getLast?_concat] at hlast
        obtain rfl := Option.some.inj hlast
        exact not_readsAs_of_startsRecord (hstands.part.resolve_left htorn) hplain
          ⟨text, hdecode, hparse⟩
    refine ⟨⟨before, ?_⟩, hstart⟩
    rw [if_pos hstart, List.append_nil]
    exact hwholeLoad
  · rintro ⟨⟨before, hload⟩, hstart⟩
    rw [if_pos hstart, List.append_nil] at hload
    obtain ⟨text, hdecode, hparse⟩ : ReadsAs (Utf8.encode (formatRecord record)) record :=
      readsAs_formatRecord hplain
    refine ⟨before.loadLine (AuditLog.lineText text), ?_, ?_⟩
    · rw [hstart, List.nil_append]
      exact AuditLog.foldlM_concat_eq_ok.mpr ⟨before, text, hload, hdecode, rfl⟩
    · simp only [AuditLog.loadLine, hparse, Window.push, List.getLast?_concat]

/-! ### Records of ASCII -/

/-- A text of ASCII characters. -/
def AsciiText (text : List Char) : Prop := ∀ character ∈ text, character.toNat < 128

/-- The file and the messages of memory are ASCII. -/
structure AsciiOnly (disk : AuditDisk) : Prop where
  file : Utf8.Ascii (disk.file.getD [])
  memory : ∀ log, disk.log = some log → ∀ record ∈ log.records, AsciiText record.message.toList

theorem ascii_encode_formatRecord {record : BoundedLogRecord}
    (hmessage : AsciiText record.message.toList) :
    Utf8.Ascii (Utf8.encode (formatRecord record)) := by
  rw [Utf8.ascii_encode_iff]
  intro character hmem
  rcases List.mem_append.mp hmem with hbody | hend
  · rcases List.mem_append.mp hbody with hdigits | hrest
    · have hdigit := Nat.isDigit_of_mem_toDigits (by decide) (by decide) hdigits
      simp only [Char.isDigit, Bool.and_eq_true, decide_eq_true_eq] at hdigit
      exact (UInt32.le_iff_toNat_le.mp hdigit.2).trans_lt (by decide)
    · rcases List.mem_cons.mp hrest with rfl | htext
      · decide
      · obtain ⟨other, hother, hcharacter⟩ := List.mem_flatMap.mp htext
        split_ifs at hcharacter
        · rw [List.mem_singleton.mp hcharacter]
          decide
        · rw [List.mem_singleton.mp hcharacter]
          exact hmessage other hother
  · rw [List.mem_singleton.mp hend]
    decide

/-- The lines of an ASCII file are ASCII. Assumes: the file is, and a line of it. -/
theorem ascii_of_mem_linesOf {file line : List UInt8} (hfile : Utf8.Ascii file)
    (hline : line ∈ linesOf newline [] (file.map some)) : Utf8.Ascii line := by
  intro byte hbyte
  rcases mem_of_mem_linesOf newline hline hbyte with hnil | hsome
  · cases hnil
  · obtain ⟨other, hother, hsame⟩ := List.mem_map.mp hsome
    exact Option.some.inj hsame ▸ hfile other hother

/-- The text of a line is a part of the line. Assumes: a character of the text. -/
theorem mem_of_mem_lineText {line : List Char} {character : Char}
    (hmem : character ∈ AuditLog.lineText line) : character ∈ line := by
  rw [AuditLog.lineText] at hmem
  split_ifs at hmem
  · rw [Text.stripReturn] at hmem
    split_ifs at hmem
    · exact List.mem_of_mem_dropLast (List.mem_of_mem_dropLast hmem)
    · exact List.mem_of_mem_dropLast hmem
  · exact hmem

/-- What is loaded from an ASCII file is ASCII. Assumes: the file is, and it is loaded. -/
theorem asciiText_of_openBytes {file : Option (List UInt8)} (hfile : Utf8.Ascii (file.getD []))
    {loaded : AuditLog} (hopen : AuditLog.openBytes file maxBytes maxRecords hpos = .ok loaded) :
    ∀ record ∈ loaded.records, AsciiText record.message.toList := by
  refine AuditLog.loadBytes_invariant
    (fun log ↦ ∀ record ∈ log.records, AsciiText record.message.toList)
    (fun log line text hline hdecode hlog record hrecord ↦ ?_)
    (fun record hrecord ↦ absurd hrecord List.not_mem_nil) hopen
  have htext : AsciiText text := by
    rw [AsciiText, ← Utf8.ascii_encode_iff, ← (Utf8.decode_eq_some_iff _ _).mp hdecode]
    exact ascii_of_mem_linesOf hfile hline
  rw [AuditLog.loadLine] at hrecord
  cases hparse : parseRecord (AuditLog.lineText text) with
  | none =>
    rw [hparse] at hrecord
    exact hlog record hrecord
  | some parsed =>
    simp only [hparse] at hrecord
    rcases Window.mem_of_mem_push hrecord with hbefore | rfl
    · exact hlog record hbefore
    · rw [parseRecord] at hparse
      split at hparse
      · cases hparse
      · next sequence message hsplit =>
        obtain ⟨_, _, rfl⟩ := Option.map_eq_some_iff.mp hparse
        rw [String.toList_ofList]
        exact fun character hmem ↦ htext character
          (mem_of_mem_lineText (Text.mem_of_mem_splitOnce hsplit hmem))

/-- An ASCII file can be opened. Assumes: it is ASCII. -/
theorem exists_openBytes_of_ascii {file : Option (List UInt8)}
    (hfile : Utf8.Ascii (file.getD [])) :
    ∃ loaded, AuditLog.openBytes file maxBytes maxRecords hpos = .ok loaded := by
  rw [AuditLog.openBytes, AuditLog.loadBytes_eq]
  have hlines : ∀ line ∈ linesOf newline [] ((file.getD []).map some), Utf8.Ascii line :=
    fun line ↦ ascii_of_mem_linesOf hfile
  generalize linesOf newline [] ((file.getD []).map some) = lines at hlines
  generalize ({ maxBytes, maxRecords, maxRecords_pos := hpos, nextSeq := 1, records := [] } :
    AuditLog) = log
  induction lines generalizing log with
  | nil => exact ⟨log, rfl⟩
  | cons line rest ih =>
    obtain ⟨text, hdecode⟩ := Utf8.exists_decode_of_ascii (hlines line List.mem_cons_self)
    obtain ⟨loaded, hload⟩ := ih (fun other hother ↦ hlines other (List.mem_cons_of_mem line hother))
      (log.loadLine (AuditLog.lineText text))
    refine ⟨loaded, ?_⟩
    rw [List.foldlM_cons, AuditLog.loadBytesLine, hdecode]
    exact hload

/-- Writing ASCII records keeps the file ASCII, whatever fails. Assumes: it is, and so are the messages
of memory and of the record. -/
theorem ascii_file_persistRecord {disk : AuditDisk} {log : AuditLog} {record : BoundedLogRecord}
    (hfile : Utf8.Ascii (disk.file.getD []))
    (hmemory : ∀ held ∈ log.records, AsciiText held.message.toList)
    (hrecord : AsciiText record.message.toList) (sizeRead : Bool) (outcome : DiskOutcome) :
    Utf8.Ascii ((disk.persistRecord log record sizeRead outcome).file.getD []) := by
  rw [persistRecord]
  split_ifs with hlong
  · rcases file_rewriteDisk_cases { disk with log := some log.trimToDiskBudget }
      (Utf8.encode (log.trimToDiskBudget.records.flatMap formatRecord)) outcome with hsame | hcontent
    · rw [hsame]
      exact hfile
    · rw [hcontent, Option.getD_some, Utf8.ascii_encode_iff]
      intro character hmem
      obtain ⟨held, hheld, hcharacter⟩ := List.mem_flatMap.mp hmem
      have hmessage := hmemory held ((Window.trim_suffix _ _ _).subset hheld)
      exact (Utf8.ascii_encode_iff _).mp (ascii_encode_formatRecord hmessage) character hcharacter
  · obtain ⟨written, hafter, hwritten, _⟩ := exists_written { disk with log := some log }
      (Utf8.encode (formatRecord record)) outcome
    rw [hafter]
    intro byte hbyte
    rcases List.mem_append.mp hbyte with hbefore | hnew
    · exact hfile byte hbefore
    · exact ascii_encode_formatRecord hrecord byte (hwritten.subset hnew)

/-- ASCII messages keep the disk ASCII, whatever fails. Assumes: it is, and so is the message of an
append. -/
theorem asciiOnly_step {disk : AuditDisk} (hascii : disk.AsciiOnly) {op : AuditDiskOp}
    (hop : ∀ message sizeRead outcome, op = .append message sizeRead outcome →
      AsciiText message.toList) :
    (disk.step maxBytes maxRecords hpos op).AsciiOnly := by
  cases op with
  | reopen outcome =>
    refine ⟨hascii.file, fun log hlog ↦ ?_⟩
    obtain ⟨file, hfile, hload⟩ := openBytes_of_openLog maxBytes maxRecords hpos hlog
    refine asciiText_of_openBytes maxBytes maxRecords hpos ?_ hload
    rcases hfile with rfl | rfl
    · exact fun byte hbyte ↦ absurd hbyte List.not_mem_nil
    · exact hascii.file
  | append message sizeRead outcome =>
    cases hlog : disk.log with
    | none => simpa [step, hlog] using hascii
    | some log =>
      have hmessage : AsciiText (log.nextRecord message).message.toList :=
        hop message sizeRead outcome rfl
      have hpushed : ∀ record ∈ (log.push message).records, AsciiText record.message.toList := by
        intro record hrecord
        rcases Window.mem_of_mem_push hrecord with hbefore | rfl
        · exact hascii.memory log hlog record hbefore
        · exact hmessage
      refine ⟨?_, fun after hafter record hrecord ↦ ?_⟩
      · simp only [step, hlog]
        exact ascii_file_persistRecord hascii.file hpushed hmessage sizeRead outcome
      · obtain ⟨_, _, _, hsuffix, _⟩ :=
          suffix_of_log_step maxBytes maxRecords hpos hlog hafter
        exact hpushed record (hsuffix.subset hrecord)

end AuditDisk

section MainResults

open AuditDisk

/-- What no failure of the disk changes. Whatever operations of it fail, and however often the daemon
starts again: the file stays within its limit, up to the records that were appended while its size
could not be read, and an append that reads the size and of which nothing fails takes it back; the
temporary file stays within the limit and memory within its own; memory holds the last of the records
that were loaded and that were issued since; and a record that fits the file is in memory when its
append ends. Assumes: both files are within the limit at the start. -/
theorem audit_log_bounded (maxBytes maxRecords : ℕ) (hpos : 0 < maxRecords)
    (file temporary : Option (List UInt8)) (hfile : (file.getD []).length ≤ maxBytes)
    (htemporary : (temporary.getD []).length ≤ maxBytes) (ops : List AuditDiskOp) (index : ℕ) :
    let begin : AuditDisk := ⟨none, file, temporary⟩
    let disk := diskAt maxBytes maxRecords hpos begin ops index
    (disk.file.getD []).length ≤ maxBytes + blindBytes maxBytes maxRecords hpos begin ops index ∧
      (disk.temporary.getD []).length ≤ maxBytes ∧
      ∀ log, disk.log = some log →
        log.records.length ≤ maxRecords ∧
        (∃ opened loaded, OpenedAt maxBytes maxRecords hpos begin ops opened index loaded ∧
          log.records <:+ loaded.records ++
            issuedFrom loaded.nextSeq (messagesOf ((ops.take index).drop (opened + 1)))) ∧
        (∀ message, ops[index]? = some (.append message true .done) →
          ((diskAt maxBytes maxRecords hpos begin ops (index + 1)).file.getD []).length ≤
            maxBytes) ∧
        ∀ message sizeRead outcome, ops[index]? = some (.append message sizeRead outcome) →
          recordBytes (log.nextRecord message) ≤ maxBytes →
          ∃ after, (diskAt maxBytes maxRecords hpos begin ops (index + 1)).log = some after ∧
            after.records.getLast? = some (log.nextRecord message) := by
  intro begin disk
  have hbegin : begin.Bounded maxBytes maxRecords := ⟨htemporary, fun log hlog ↦ nomatch hlog⟩
  have hbounded : disk.Bounded maxBytes maxRecords :=
    stateAt_invariant _ begin ops (Bounded maxBytes maxRecords) hbegin
      (fun _ op hbefore ↦ bounded_step maxBytes maxRecords hpos hbefore op) index
  refine ⟨length_file_diskAt maxBytes maxRecords hpos begin ops hfile hbegin index,
    hbounded.temporary, fun log hlog ↦ ?_⟩
  obtain ⟨hmax, hrecords, hfew⟩ := hbounded.caps log hlog
  obtain ⟨opened, loaded, hopened, _, hsuffix⟩ :=
    memory_diskAt maxBytes maxRecords hpos begin ops rfl hlog
  have hstep : ∀ op, ops[index]? = some op →
      diskAt maxBytes maxRecords hpos begin ops (index + 1) =
        disk.step maxBytes maxRecords hpos op := fun op hop ↦ stateAt_succ _ begin ops hop
  refine ⟨hfew, ⟨opened, loaded, hopened, hsuffix⟩, fun message hop ↦ ?_,
    fun message sizeRead outcome hop hfits ↦ ?_⟩
  · rw [hstep _ hop]
    exact length_file_step_done maxBytes maxRecords hpos hbounded hlog message
  · obtain ⟨after, hafter⟩ : ∃ after,
        (disk.step maxBytes maxRecords hpos (.append message sizeRead outcome)).log =
          some after := by
      simp only [step, hlog, log_persistRecord]
      exact ⟨_, rfl⟩
    obtain ⟨_, _, _, _, hlast⟩ := suffix_of_log_step maxBytes maxRecords hpos hlog hafter
    exact ⟨after, hstep _ hop ▸ hafter, hlast (hmax.symm ▸ hfits)⟩

/-- A write that stops inside its record, another append, and the daemon starts again. -/
def tornRun : List AuditDiskOp :=
  [.reopen .done, .append "ab" true (.writeFailed 3), .append "cd" true .done, .reopen .done]

/-- Memory does not miss the record that was torn. -/
theorem audit_log_bounded_tornRun :
    (diskAt 40 2 (by decide) ⟨none, none, none⟩ tornRun 3).log.map AuditLog.records =
        some [⟨1, "ab"⟩, ⟨2, "cd"⟩] ∧
      ((diskAt 40 2 (by decide) ⟨none, none, none⟩ tornRun 3).file.getD []).length ≤ 40 :=
  ⟨rfl, (audit_log_bounded 40 2 (by decide) none none (by decide) (by decide) tornRun 3).1⟩

/-- A record that is appended without knowing the size takes the file beyond its limit. -/
example : ((diskAt 40 2 (by decide) ⟨none, some (List.replicate 38 32), none⟩
    [.reopen .hidden, .append "ab" false .done] 2).file.getD []).length = 43 := rfl

/-- What a torn write costs. As long as no write stops inside its record, the file ends where a line
starts. When it does, an append that writes its record behind the file is found again: opening the log
after it yields the record as the last one exactly when the file ended where a line starts, and could
be opened. So the record after a torn one is written and lost, and its sequence is given out again.
Assumes: the file ends where a line starts at the start. -/
theorem torn_record_hides_next (maxBytes maxRecords : ℕ) (hpos : 0 < maxRecords)
    (file temporary : Option (List UInt8)) (hstart : AtLineStart newline (file.getD []))
    (ops : List AuditDiskOp) (index : ℕ) :
    let begin : AuditDisk := ⟨none, file, temporary⟩
    let disk := diskAt maxBytes maxRecords hpos begin ops index
    ((∀ earlier op, earlier < index → ops[earlier]? = some op →
        ¬ (diskAt maxBytes maxRecords hpos begin ops earlier).Tears op) →
      AtLineStart newline (disk.file.getD [])) ∧
    ∀ message sizeRead outcome log, ops[index]? = some (.append message sizeRead outcome) →
      disk.log = some log → outcome.writes = true →
      ¬ disk.Overflows (log.push message) (log.nextRecord message) sizeRead →
      PlainMessage message → ¬ disk.HoldsRecord (log.nextRecord message) →
      ((∃ reopened, AuditLog.openBytes (diskAt maxBytes maxRecords hpos begin ops (index + 1)).file
          maxBytes maxRecords hpos = .ok reopened ∧
          reopened.records.getLast? = some (log.nextRecord message)) ↔
        (∃ before, AuditLog.openBytes disk.file maxBytes maxRecords hpos = .ok before) ∧
          AtLineStart newline (disk.file.getD [])) := by
  intro begin disk
  have hbegin : begin.tornPart = [] := (lineAfter_eq_nil_iff newline _).mpr hstart
  refine ⟨fun huntorn ↦ ?_,
    fun message sizeRead outcome log hop hlog hwrites hfits hplain hnew ↦ ?_⟩
  · have hzero : (diskAt maxBytes maxRecords hpos begin ops 0).tornPart = [] := hbegin
    rw [← lineAfter_eq_nil_iff]
    exact stateAt_induction (step maxBytes maxRecords hpos) begin ops (fun disk ↦ disk.tornPart = [])
      hzero (fun earlier _ hlt op hop hbefore ↦
        tornPart_step_of_not_tears maxBytes maxRecords hpos hbefore (huntorn earlier op hlt hop))
      index (Nat.zero_le _) le_rfl
  · have hstands : disk.Stands := stateAt_invariant _ begin ops Stands
      ⟨.inl hbegin, fun log hlog ↦ nomatch hlog⟩
      (fun _ op hbefore ↦ stands_step maxBytes maxRecords hpos hbefore op) index
    have hstep : diskAt maxBytes maxRecords hpos begin ops (index + 1) =
        disk.step maxBytes maxRecords hpos (.append message sizeRead outcome) :=
      stateAt_succ _ begin ops hop
    rw [hstep, ← lineAfter_eq_nil_iff]
    exact opened_after_append_iff maxBytes maxRecords hpos hstands hlog hwrites hfits hplain hnew

/-- The second record of `tornRun` is not found again. -/
theorem torn_record_hides_next_tornRun :
    ¬ ∃ reopened, AuditLog.openBytes (diskAt 40 2 (by decide) ⟨none, none, none⟩ tornRun 3).file 40 2
      (by decide) = .ok reopened ∧ reopened.records.getLast? = some ⟨2, "cd"⟩ := by
  have hnew : ¬ (diskAt 40 2 (by decide) ⟨none, none, none⟩ tornRun 2).HoldsRecord ⟨2, "cd"⟩ := by
    rintro ⟨line, hline, text, hdecode, hparse⟩
    have hlines : linesOf newline []
        (((diskAt 40 2 (by decide) ⟨none, none, none⟩ tornRun 2).file.getD []).map some) =
        [Utf8.encode "1\ta".toList] := rfl
    rw [hlines, List.mem_singleton] at hline
    rw [hline, Utf8.decode_encode] at hdecode
    obtain rfl := Option.some.inj hdecode
    exact absurd hparse (by decide)
  obtain ⟨_, hfound⟩ := torn_record_hides_next 40 2 (by decide) none none (.inl rfl) tornRun 2
  intro hopened
  have hstart := ((hfound "cd" true .done ⟨40, 2, by decide, 2, [⟨1, "ab"⟩]⟩ rfl rfl rfl (by decide)
    (by decide) hnew).mp hopened).2
  exact absurd hstart (by unfold AtLineStart; decide)

/-- ASCII messages never keep the daemon from starting. Whatever operations of the disk fail, wherever
writes stop and however often the daemon starts again: the log can be opened. Assumes: the file is
ASCII at the start, and so are the messages. -/
theorem ascii_log_always_opens (maxBytes maxRecords : ℕ) (hpos : 0 < maxRecords)
    (file temporary : Option (List UInt8)) (hfile : Utf8.Ascii (file.getD []))
    (ops : List AuditDiskOp)
    (hmessages : ∀ message ∈ messagesOf ops, AsciiText message.toList) (index : ℕ) :
    ∃ log, AuditLog.openBytes
      (diskAt maxBytes maxRecords hpos ⟨none, file, temporary⟩ ops index).file maxBytes maxRecords
      hpos = .ok log := by
  refine exists_openBytes_of_ascii maxBytes maxRecords hpos (AsciiOnly.file ?_)
  have hzero : (diskAt maxBytes maxRecords hpos ⟨none, file, temporary⟩ ops 0).AsciiOnly :=
    ⟨hfile, fun log hlog ↦ nomatch hlog⟩
  refine stateAt_induction (step maxBytes maxRecords hpos) _ ops AsciiOnly hzero
    (fun earlier _ _ op hop hbefore ↦ ?_) index (Nat.zero_le _) le_rfl
  refine asciiOnly_step maxBytes maxRecords hpos hbefore fun message sizeRead outcome happend ↦ ?_
  exact hmessages message (List.mem_filterMap.mpr ⟨op, List.mem_of_getElem? hop, by rw [happend]⟩)

theorem ascii_log_always_opens_tornRun :
    ∃ log, AuditLog.openBytes (diskAt 40 2 (by decide) ⟨none, none, none⟩ tornRun 3).file 40 2
      (by decide) = .ok log :=
  ascii_log_always_opens 40 2 (by decide) none none (fun byte hbyte ↦ absurd hbyte List.not_mem_nil)
    tornRun (by simp [messagesOf, tornRun, AsciiText]) 3

/-- A record whose write stops inside a character keeps the daemon from starting. -/
example : (AuditLog.openBytes (diskAt 40 2 (by decide) ⟨none, none, none⟩
    [.reopen .done, .append "\u00e9" true (.writeFailed 3)] 2).file 40 2
    (by decide)).toOption.isNone := by
  have hlines : linesOf newline [] (((diskAt 40 2 (by decide) ⟨none, none, none⟩
      [.reopen .done, .append "\u00e9" true (.writeFailed 3)] 2).file.getD []).map some) =
      [[49, 9, 195]] := rfl
  have hdecode : Utf8.decode [49, 9, 195] = none := by decide
  rw [AuditLog.openBytes, AuditLog.loadBytes_eq, hlines, List.foldlM_cons, AuditLog.loadBytesLine,
    hdecode]
  rfl

end MainResults

end InterFire
