import InterFire.Basic
import InterFire.Library.Replace
import InterFire.Library.Run
import InterFire.Library.Text
import InterFire.Library.Window

/-!
# The audit log and its file

`AuditLog` of `crates/interfire-daemon/src/audit.rs` without its subscribers: `open`, `append`, and
between them the file. A record is a line with the sequence, a tabulator and the message. The file
may hold more records than memory does, until a record does not fit: then memory is trimmed to the
size of the file and written out.

`audit_log_restart_safe` is what holds along every run of appends and openings without a failure of
the file. Its invariant is `AuditStore.Sound`: the file holds the last of the appended records, and
memory the last of those.

The sums of lengths are below 2^64, where the additions of the source do not saturate: a file and a
line are each shorter than 2^63 bytes.
-/

set_option autoImplicit false
set_option relaxedAutoImplicit false

namespace InterFire

structure BoundedLogRecord where
  sequence : UInt64
  message : String
  deriving DecidableEq, Repr

/-- The line of a record. -/
def formatRecord (record : BoundedLogRecord) : List Char :=
  Nat.toDigits 10 record.sequence.toNat ++ '\t' ::
    Text.replaceChar '\n' [' '] record.message.toList ++ ['\n']

/-- The record of a line. -/
def parseRecord (line : List Char) : Option BoundedLogRecord :=
  match Text.splitOnce '\t' line with
  | (_, none) => none
  | (sequence, some message) =>
    (Text.parseUnsigned (2 ^ 64) sequence).map fun sequence ↦
      ⟨UInt64.ofNat sequence, String.ofList message⟩

/-- The size of a record in the file. -/
def recordBytes (record : BoundedLogRecord) : ℕ := Text.byteLength (formatRecord record)

structure AuditLog where
  maxBytes : ℕ
  maxRecords : ℕ
  maxRecords_pos : 0 < maxRecords
  nextSeq : UInt64
  records : List BoundedLogRecord

namespace AuditLog

/-- Take in a line of the file, unless it is no record. -/
def loadLine (log : AuditLog) (line : List Char) : AuditLog :=
  match parseRecord line with
  | none => log
  | some record =>
    let next := saturatingAdd record.sequence 1
    { log with
      nextSeq := if log.nextSeq ≤ next then next else log.nextSeq
      records := Window.push log.maxRecords log.records record }

def loadFromDisk (log : AuditLog) (file : Option (List Char)) : AuditLog :=
  match file with
  | none => log
  | some text => (Text.fileLines text).foldl loadLine log

/-- Open the log on a file that may be missing. -/
def openLog (file : Option (List Char)) (maxBytes maxRecords : ℕ) (hpos : 0 < maxRecords) :
    AuditLog :=
  loadFromDisk { maxBytes, maxRecords, maxRecords_pos := hpos, nextSeq := 1, records := [] } file

def trimToDiskBudget (log : AuditLog) : AuditLog :=
  { log with records := Window.trim recordBytes log.maxBytes log.records }

/-- Write a record, the last one of memory, at the end of the file, or all of trimmed memory when it
does not fit there. -/
def persistRecord (log : AuditLog) (file : Option (List Char)) (record : BoundedLogRecord) :
    AuditLog × List Char :=
  if log.maxBytes < Text.byteLength (file.getD []) + recordBytes record then
    (log.trimToDiskBudget, log.trimToDiskBudget.records.flatMap formatRecord)
  else (log, file.getD [] ++ formatRecord record)

/-- The record that the next message gets. -/
def nextRecord (log : AuditLog) (message : String) : BoundedLogRecord := ⟨log.nextSeq, message⟩

/-- Append a message. -/
def append (log : AuditLog) (file : Option (List Char)) (message : String) :
    AuditLog × List Char :=
  let record := log.nextRecord message
  { log with
    nextSeq := saturatingAdd log.nextSeq 1
    records := Window.push log.maxRecords log.records record }.persistRecord file record

/-- Up to `limit` recent records, oldest first. -/
def tail (log : AuditLog) (limit : ℕ) : List BoundedLogRecord :=
  (log.records.reverse.take (min limit log.records.length)).reverse

/-- The records with a later sequence. -/
def since (log : AuditLog) (since : UInt64) : List BoundedLogRecord :=
  log.records.filter fun record ↦ since < record.sequence

end AuditLog

/-- A log and its file. -/
structure AuditStore where
  log : AuditLog
  file : Option (List Char)

/-- What happens to a log. -/
inductive AuditOp
  | append (message : String)
  | reopen
  deriving DecidableEq, Repr

namespace AuditStore

def step (store : AuditStore) : AuditOp → AuditStore
  | .append message =>
    let (log, file) := store.log.append store.file message
    ⟨log, some file⟩
  | .reopen =>
    ⟨.openLog store.file store.log.maxBytes store.log.maxRecords store.log.maxRecords_pos,
      store.file⟩

/-- A log on a missing file. -/
def start (maxBytes maxRecords : ℕ) (hpos : 0 < maxRecords) : AuditStore :=
  ⟨.openLog none maxBytes maxRecords hpos, none⟩

end AuditStore

/-- A message that a line can hold. -/
structure PlainMessage (message : String) : Prop where
  newline : '\n' ∉ message.toList
  carriage : message.toList.getLast? ≠ some '\r'

instance (message : String) : Decidable (PlainMessage message) :=
  decidable_of_iff ('\n' ∉ message.toList ∧ message.toList.getLast? ≠ some '\r')
    ⟨fun hboth ↦ ⟨hboth.1, hboth.2⟩, fun hplain ↦ ⟨hplain.newline, hplain.carriage⟩⟩

/-- A message is appended when it is plain and its record fits the file. -/
def AuditStore.Allowed (store : AuditStore) : AuditOp → Prop
  | .append message =>
    PlainMessage message ∧ recordBytes (store.log.nextRecord message) ≤ store.log.maxBytes
  | .reopen => True

instance (store : AuditStore) (op : AuditOp) : Decidable (store.Allowed op) :=
  match op with
  | .append _ => inferInstanceAs (Decidable (_ ∧ _))
  | .reopen => isTrue trivial

/-- The messages of the appends. -/
def appended (ops : List AuditOp) : List String :=
  ops.filterMap fun
    | .append message => some message
    | .reopen => none

/-- The messages with their sequences, from one on. -/
def numbered (messages : List String) : List BoundedLogRecord :=
  messages.mapIdx fun index message ↦ ⟨UInt64.ofNat (index + 1), message⟩

/-! ### Lines of the file -/

/-- The line of a record, without its end. -/
def recordLine (record : BoundedLogRecord) : List Char :=
  Nat.toDigits 10 record.sequence.toNat ++ '\t' :: record.message.toList

/-- A plain message is written as it is. Assumes: it is plain. -/
theorem formatRecord_eq {record : BoundedLogRecord} (hplain : PlainMessage record.message) :
    formatRecord record = recordLine record ++ ['\n'] := by
  rw [formatRecord, Text.replaceChar_of_not_mem hplain.newline, recordLine]

theorem parseRecord_recordLine (record : BoundedLogRecord) :
    parseRecord (recordLine record) = some record := by
  have htab : '\t' ∉ Nat.toDigits 10 record.sequence.toNat := Text.not_mem_toDigits (by decide) _
  rw [parseRecord, recordLine, Text.splitOnce_append htab]
  simp [Text.parseUnsigned_toDigits record.sequence.toNat_lt]

theorem newline_not_mem_recordLine {record : BoundedLogRecord}
    (hplain : PlainMessage record.message) : '\n' ∉ recordLine record := by
  intro hmem
  rcases List.mem_append.mp hmem with hdigits | hrest
  · exact Text.not_mem_toDigits (by decide) _ hdigits
  · rcases List.mem_cons.mp hrest with heq | hmessage
    · exact absurd heq (by decide)
    · exact hplain.newline hmessage

theorem getLast?_recordLine {record : BoundedLogRecord} (hplain : PlainMessage record.message) :
    (recordLine record).getLast? ≠ some '\r' := by
  intro hlast
  rw [recordLine, List.getLast?_append, List.getLast?_cons] at hlast
  cases hmessage : record.message.toList.getLast? with
  | none =>
    rw [hmessage] at hlast
    exact absurd hlast (by simp)
  | some last =>
    rw [hmessage] at hlast
    have hreturn : some last = some '\r' := hlast
    exact hplain.carriage (hmessage.trans hreturn)

/-- The lines of a file are those of the records it was written from. Assumes: the messages are
plain. -/
theorem fileLines_of_records {stored : List BoundedLogRecord}
    (hplain : ∀ record ∈ stored, PlainMessage record.message) :
    Text.fileLines (stored.flatMap formatRecord) = stored.map recordLine := by
  have hwritten : stored.flatMap formatRecord = (stored.map recordLine).flatMap (· ++ ['\n']) := by
    rw [List.flatMap_map]
    exact List.flatMap_congr fun record hrecord ↦ formatRecord_eq (hplain record hrecord)
  rw [hwritten]
  refine Text.fileLines_flatMap (fun line hline ↦ ?_) fun line hline ↦ ?_
  · obtain ⟨record, hrecord, rfl⟩ := List.mem_map.mp hline
    exact newline_not_mem_recordLine (hplain record hrecord)
  · obtain ⟨record, hrecord, rfl⟩ := List.mem_map.mp hline
    exact getLast?_recordLine (hplain record hrecord)

/-! ### Opening -/

namespace AuditLog

/-- The sequence after a record, or the one before when that is greater. -/
def nextAfter (next : UInt64) (record : BoundedLogRecord) : UInt64 :=
  if next ≤ saturatingAdd record.sequence 1 then saturatingAdd record.sequence 1 else next

/-- What is loaded from the lines of records. -/
theorem foldl_loadLine (log : AuditLog) (stored : List BoundedLogRecord) :
    (stored.map recordLine).foldl loadLine log =
      { log with
        nextSeq := stored.foldl nextAfter log.nextSeq
        records := stored.foldl (Window.push log.maxRecords) log.records } := by
  induction stored generalizing log with
  | nil => rfl
  | cons first rest ih =>
    have hfirst : log.loadLine (recordLine first) =
        { log with
          nextSeq := nextAfter log.nextSeq first
          records := Window.push log.maxRecords log.records first } := by
      rw [loadLine, parseRecord_recordLine]
      rfl
    rw [List.map_cons, List.foldl_cons, hfirst, ih]
    rfl

/-- Opening the log on the file of records. Assumes: the messages are plain. -/
theorem openLog_of_records {stored : List BoundedLogRecord}
    (hplain : ∀ record ∈ stored, PlainMessage record.message) {file : Option (List Char)}
    (hfile : file.getD [] = stored.flatMap formatRecord) (maxBytes : ℕ) {maxRecords : ℕ}
    (hpos : 0 < maxRecords) :
    openLog file maxBytes maxRecords hpos =
      { maxBytes, maxRecords, maxRecords_pos := hpos
        nextSeq := stored.foldl nextAfter 1
        records := stored.rtake maxRecords } := by
  cases file with
  | none =>
    have hnone : stored = [] := by
      cases stored with
      | nil => rfl
      | cons first rest =>
        exfalso
        have hlength := congrArg List.length hfile
        simp [formatRecord] at hlength
    subst hnone
    simp [openLog, loadFromDisk]
  | some text =>
    obtain rfl : text = stored.flatMap formatRecord := hfile
    rw [openLog, loadFromDisk, fileLines_of_records hplain, foldl_loadLine, Window.foldl_push hpos]

end AuditLog

/-! ### Numbered messages -/

theorem numbered_concat (messages : List String) (message : String) :
    numbered (messages ++ [message]) =
      numbered messages ++ [⟨UInt64.ofNat (messages.length + 1), message⟩] := by
  simp [numbered, List.mapIdx_append]

@[simp] theorem length_numbered (messages : List String) :
    (numbered messages).length = messages.length := by
  simp [numbered]

theorem message_mem_of_mem_numbered {messages : List String} {record : BoundedLogRecord}
    (hmem : record ∈ numbered messages) : record.message ∈ messages := by
  obtain ⟨index, hlt, rfl⟩ := List.mem_mapIdx.mp hmem
  exact List.getElem_mem hlt

theorem map_message_numbered (messages : List String) :
    (numbered messages).map BoundedLogRecord.message = messages := by
  induction messages using List.reverseRecOn with
  | nil => rfl
  | append_singleton messages message ih => rw [numbered_concat, List.map_append, ih]; rfl

/-- The sequences count from one on. Assumes: they are 64-bit numbers. -/
theorem map_sequence_numbered {messages : List String} (hlt : messages.length < 2 ^ 64) :
    (numbered messages).map (·.sequence.toNat) = List.range' 1 messages.length := by
  induction messages using List.reverseRecOn with
  | nil => rfl
  | append_singleton messages message ih =>
    rw [List.length_append, List.length_singleton] at hlt
    have hlast : (UInt64.ofNat (messages.length + 1)).toNat = messages.length + 1 :=
      UInt64.toNat_ofNat_of_lt' hlt
    rw [numbered_concat, List.map_append, ih (by omega), List.length_append, List.length_singleton,
      List.range'_concat, List.map_singleton, hlast]
    simp [Nat.add_comm]

/-- The next sequence after records whose sequences are below a bound is at most the bound. Assumes:
they are, and so is the sequence before them. -/
theorem foldl_nextAfter_le {bound : ℕ} {records : List BoundedLogRecord} {next : UInt64}
    (hnext : next.toNat ≤ bound)
    (hrecords : ∀ record ∈ records, (saturatingAdd record.sequence 1).toNat ≤ bound) :
    (records.foldl AuditLog.nextAfter next).toNat ≤ bound := by
  induction records generalizing next with
  | nil => exact hnext
  | cons first rest ih =>
    refine ih ?_ fun record hrecord ↦ hrecords record (.tail first hrecord)
    unfold AuditLog.nextAfter
    split_ifs
    · exact hrecords first List.mem_cons_self
    · exact hnext

/-- The next sequence after the last of the numbered records. Assumes: the records are the last ones,
there is one, and the sequence after it is a 64-bit number. -/
theorem foldl_nextAfter {messages : List String} {stored : List BoundedLogRecord}
    (hsuffix : stored <:+ numbered messages) (hne : stored ≠ [])
    (hlt : messages.length + 1 < 2 ^ 64) :
    (stored.foldl AuditLog.nextAfter 1).toNat = messages.length + 1 := by
  have hsequence : ∀ record ∈ numbered messages,
      (saturatingAdd record.sequence 1).toNat ≤ messages.length + 1 := by
    intro record hrecord
    have hmem : record.sequence.toNat ∈ List.range' 1 messages.length := by
      rw [← map_sequence_numbered (by omega)]
      exact List.mem_map_of_mem hrecord
    rw [List.mem_range'_1] at hmem
    rw [toNat_saturatingAdd_one (by omega)]
    omega
  rcases List.eq_nil_or_concat messages with rfl | ⟨earlier, message, rfl⟩
  · exact absurd (List.suffix_nil.mp hsuffix) hne
  rw [List.concat_eq_append] at hsuffix hsequence hlt ⊢
  rw [List.length_append, List.length_singleton] at hsequence hlt ⊢
  rw [numbered_concat] at hsuffix hsequence
  -- A nonempty end of the list ends as the list does.
  obtain rfl | ⟨kept, rfl, hkept⟩ := List.suffix_concat_iff.mp hsuffix
  · exact absurd rfl hne
  have hlast : (UInt64.ofNat (earlier.length + 1)).toNat = earlier.length + 1 :=
    UInt64.toNat_ofNat_of_lt' (show earlier.length + 1 < 2 ^ 64 by omega)
  have hnext : (saturatingAdd (UInt64.ofNat (earlier.length + 1)) 1).toNat =
      earlier.length + 1 + 1 := by
    rw [toNat_saturatingAdd_one (by omega), hlast]
  have hbefore : (kept.foldl AuditLog.nextAfter 1).toNat ≤ earlier.length + 1 + 1 :=
    foldl_nextAfter_le (by simp) fun record hrecord ↦
      hsequence record (List.mem_append_left _ (hkept.subset hrecord))
  rw [List.foldl_append, List.foldl_cons, List.foldl_nil, AuditLog.nextAfter]
  have hle : kept.foldl AuditLog.nextAfter 1 ≤
      saturatingAdd (UInt64.ofNat (earlier.length + 1)) 1 := by
    rw [UInt64.le_iff_toNat_le, hnext]
    exact hbefore
  rw [if_pos hle, hnext]

/-! ### Runs -/

namespace AuditStore

/-- What holds of a log and its file after messages: the file has the last of the records and is no
longer than it may be, memory has the last of those, and the next sequence is the next number. -/
structure Sound (messages : List String) (store : AuditStore) : Prop where
  plain : ∀ message ∈ messages, PlainMessage message
  next : store.log.nextSeq.toNat = messages.length + 1
  bytes : Text.byteLength (store.file.getD []) ≤ store.log.maxBytes
  stored : ∃ stored, store.file.getD [] = stored.flatMap formatRecord ∧
    stored <:+ numbered messages ∧ (messages ≠ [] → stored ≠ []) ∧
    store.log.records = stored.rtake store.log.maxRecords

variable {messages : List String} {store : AuditStore}

theorem sound_start (maxBytes : ℕ) {maxRecords : ℕ} (hpos : 0 < maxRecords) :
    (start maxBytes maxRecords hpos).Sound [] :=
  ⟨nofun, rfl, Nat.zero_le _, [], rfl, List.suffix_rfl, fun hne ↦ absurd rfl hne,
    (List.rtake_nil _).symm⟩

/-- Opening the log again yields the log. Assumes: it is sound, and the next sequence is a 64-bit
number. -/
theorem openLog_of_sound (hsound : store.Sound messages) (hlt : messages.length + 1 < 2 ^ 64) :
    AuditLog.openLog store.file store.log.maxBytes store.log.maxRecords store.log.maxRecords_pos =
      store.log := by
  obtain ⟨stored, hfile, hsuffix, hne, hrecords⟩ := hsound.stored
  have hplain : ∀ record ∈ stored, PlainMessage record.message := fun record hrecord ↦
    hsound.plain _ (message_mem_of_mem_numbered (hsuffix.subset hrecord))
  have hnext : stored.foldl AuditLog.nextAfter 1 = store.log.nextSeq := by
    rw [← UInt64.toNat_inj, hsound.next]
    by_cases hempty : messages = []
    · subst hempty
      rw [List.suffix_nil.mp hsuffix]
      rfl
    · exact foldl_nextAfter hsuffix (hne hempty) hlt
  rw [AuditLog.openLog_of_records hplain hfile, hnext, ← hrecords]

/-- Opening again changes nothing. Assumes: the store is sound, and the next sequence is a 64-bit
number. -/
theorem step_reopen (hsound : store.Sound messages) (hlt : messages.length + 1 < 2 ^ 64) :
    store.step .reopen = store := by
  rw [step, openLog_of_sound hsound hlt]

/-- What an append makes of memory and the file: either the record is written at the end of the file,
or memory is trimmed and written out. -/
theorem step_append_cases (store : AuditStore) (message : String) :
    let record := store.log.nextRecord message
    let pushed := Window.push store.log.maxRecords store.log.records record
    (Text.byteLength (store.file.getD [] ++ formatRecord record) ≤ store.log.maxBytes ∧
      store.step (.append message) =
        ⟨{ store.log with nextSeq := saturatingAdd store.log.nextSeq 1, records := pushed },
          some (store.file.getD [] ++ formatRecord record)⟩) ∨
    store.step (.append message) =
      ⟨{ store.log with
          nextSeq := saturatingAdd store.log.nextSeq 1
          records := Window.trim recordBytes store.log.maxBytes pushed },
        some ((Window.trim recordBytes store.log.maxBytes pushed).flatMap formatRecord)⟩ := by
  dsimp only
  rw [step, AuditLog.append, AuditLog.persistRecord]
  dsimp only
  split_ifs with hlong
  · exact .inr rfl
  · refine .inl ⟨?_, rfl⟩
    rw [Text.byteLength_append]
    exact not_lt.mp hlong

/-- Appending keeps the store sound. Assumes: it is, the message may be appended, and the sequence
after its own is a 64-bit number. -/
theorem sound_append {message : String} (hsound : store.Sound messages)
    (hallowed : store.Allowed (.append message)) (hlt : messages.length + 2 < 2 ^ 64) :
    (store.step (.append message)).Sound (messages ++ [message]) := by
  obtain ⟨stored, hfile, hsuffix, hne, hrecords⟩ := hsound.stored
  obtain ⟨hplain, hfits⟩ := hallowed
  have hrecord : store.log.nextRecord message =
      ⟨UInt64.ofNat (messages.length + 1), message⟩ := by
    rw [AuditLog.nextRecord, ← hsound.next, UInt64.ofNat_toNat]
  have hlonger : stored ++ [store.log.nextRecord message] <:+ numbered (messages ++ [message]) := by
    rw [numbered_concat, hrecord]
    exact (List.suffix_append_self_iff).mpr hsuffix
  have hpushed : Window.push store.log.maxRecords store.log.records
      (store.log.nextRecord message) =
        (stored ++ [store.log.nextRecord message]).rtake store.log.maxRecords := by
    rw [hrecords, Window.push_rtake store.log.maxRecords_pos]
  have hmessages : ∀ other ∈ messages ++ [message], PlainMessage other := by
    intro other hother
    rcases List.mem_append.mp hother with hbefore | hnew
    · exact hsound.plain other hbefore
    · exact List.mem_singleton.mp hnew ▸ hplain
  have hnext : (saturatingAdd store.log.nextSeq 1).toNat = (messages ++ [message]).length + 1 := by
    rw [toNat_saturatingAdd_one (by rw [hsound.next]; omega), hsound.next]
    simp
  rcases store.step_append_cases message with ⟨hbytes, hstep⟩ | hstep
  · rw [hstep]
    refine ⟨hmessages, hnext, hbytes, stored ++ [store.log.nextRecord message], ?_, hlonger,
      fun _ ↦ by simp, hpushed⟩
    simp [hfile]
  · rw [hstep]
    set trimmed := Window.trim recordBytes store.log.maxBytes (Window.push store.log.maxRecords
      store.log.records (store.log.nextRecord message)) with htrimmed
    have hend : trimmed <:+ Window.push store.log.maxRecords store.log.records
        (store.log.nextRecord message) := Window.trim_suffix _ _ _
    refine ⟨hmessages, hnext, ?_, trimmed, rfl, ?_, fun _ ↦ ?_, ?_⟩
    · change Text.byteLength (trimmed.flatMap formatRecord) ≤ _
      rw [Text.byteLength_flatMap]
      exact Window.sum_trim_le recordBytes _ _
    · rw [hpushed] at hend
      exact (hend.trans (Window.rtake_suffix _ _)).trans hlonger
    · obtain ⟨kept, hkept⟩ := Window.exists_trim_concat recordBytes store.log.maxBytes hfits
        (if store.log.records.length = store.log.maxRecords then store.log.records.drop 1
          else store.log.records)
      rw [htrimmed, Window.push, hkept]
      simp
    · refine (Window.rtake_of_length_le ?_).symm
      rw [hpushed] at hend
      exact hend.length_le.trans (Window.length_rtake_le _ _)

/-- The caps stay. -/
theorem caps_step (store : AuditStore) (hsound : store.Sound messages)
    (hlt : messages.length + 1 < 2 ^ 64) (op : AuditOp) :
    (store.step op).log.maxBytes = store.log.maxBytes ∧
      (store.step op).log.maxRecords = store.log.maxRecords := by
  cases op with
  | append message =>
    rcases store.step_append_cases message with ⟨_, hstep⟩ | hstep
    · rw [hstep]
      exact ⟨rfl, rfl⟩
    · rw [hstep]
      exact ⟨rfl, rfl⟩
  | reopen =>
    rw [step_reopen hsound hlt]
    exact ⟨rfl, rfl⟩

end AuditStore

theorem appended_append (first second : List AuditOp) :
    appended (first ++ second) = appended first ++ appended second :=
  List.filterMap_append

/-- The messages of a part of a run are no more than those of the run. -/
theorem length_appended_take_le (ops : List AuditOp) (index : ℕ) :
    (appended (ops.take index)).length ≤ (appended ops).length := by
  conv_rhs => rw [← List.take_append_drop index ops, appended_append, List.length_append]
  exact Nat.le_add_right _ _

namespace AuditStore

/-- The store after a part of a run. -/
def after (store : AuditStore) (ops : List AuditOp) (index : ℕ) : AuditStore :=
  Run.stateAt step store ops index

/-- Every operation of a run may be carried out when it is. -/
def Runs (store : AuditStore) (ops : List AuditOp) : Prop :=
  ∀ index op, ops[index]? = some op → (store.after ops index).Allowed op

variable {maxBytes maxRecords : ℕ} {hpos : 0 < maxRecords} {ops : List AuditOp}

/-- The store is sound and keeps its caps along a run. Assumes: every operation may be carried out,
and the sequences are 64-bit numbers. -/
theorem sound_after (hruns : (start maxBytes maxRecords hpos).Runs ops)
    (hcount : (appended ops).length < 2 ^ 64 - 1) (index : ℕ) :
    ((start maxBytes maxRecords hpos).after ops index).Sound (appended (ops.take index)) ∧
      ((start maxBytes maxRecords hpos).after ops index).log.maxBytes = maxBytes ∧
      ((start maxBytes maxRecords hpos).after ops index).log.maxRecords = maxRecords := by
  induction index with
  | zero => exact ⟨sound_start maxBytes hpos, rfl, rfl⟩
  | succ index ih =>
    obtain ⟨hsound, hbytes, hrecords⟩ := ih
    cases hop : ops[index]? with
    | none =>
      have hend : ops.take (index + 1) = ops.take index := by
        rw [List.take_add_one, hop, Option.toList_none, List.append_nil]
      rw [after, Run.stateAt_succ_of_none _ _ _ hop, hend]
      exact ⟨hsound, hbytes, hrecords⟩
    | some op =>
      have htake : ops.take (index + 1) = ops.take index ++ [op] := by
        rw [List.take_add_one, hop, Option.toList_some]
      have hlength := length_appended_take_le ops (index + 1)
      have hbefore := length_appended_take_le ops index
      have hcaps := caps_step _ hsound (by omega) op
      rw [hbytes, hrecords] at hcaps
      rw [htake, appended_append, List.length_append] at hlength
      rw [after, Run.stateAt_succ _ _ _ hop, htake, appended_append]
      refine ⟨?_, hcaps⟩
      cases op with
      | append message =>
        have hone : (appended [.append message]).length = 1 := rfl
        rw [hone] at hlength
        exact sound_append hsound (hruns index _ hop) (by omega)
      | reopen =>
        have hnone : appended [.reopen] = [] := rfl
        rw [hnone, List.append_nil, ← after, step_reopen hsound (by omega)]
        exact hsound

end AuditStore

/-- The records of memory are the most recent messages, with consecutive sequences. Assumes: the store
is sound, and the next sequence is a 64-bit number. -/
theorem AuditStore.Sound.records_eq {messages : List String} {store : AuditStore}
    (hsound : store.Sound messages) (hlt : messages.length + 1 < 2 ^ 64) :
    store.log.records.length ≤ store.log.maxRecords ∧
      (messages ≠ [] → 0 < store.log.records.length) ∧
      store.log.records.map (·.sequence.toNat) =
        List.range' (store.log.nextSeq.toNat - store.log.records.length)
          store.log.records.length ∧
      store.log.records.map BoundedLogRecord.message =
        messages.drop (messages.length - store.log.records.length) := by
  obtain ⟨stored, _, hsuffix, hne, hrecords⟩ := hsound.stored
  have hend : store.log.records <:+ numbered messages := by
    rw [hrecords]
    exact (Window.rtake_suffix _ _).trans hsuffix
  have hlength := hend.length_le
  have hdrop := List.suffix_iff_eq_drop.mp hend
  rw [length_numbered] at hlength hdrop
  set kept := store.log.records.length with hkept
  refine ⟨?_, fun hmessages ↦ ?_, ?_, ?_⟩
  · rw [hkept, hrecords]
    exact Window.length_rtake_le _ _
  · have hstored := List.length_pos_iff.mpr (hne hmessages)
    have hroom := store.log.maxRecords_pos
    rw [hkept, hrecords, List.rtake, List.length_drop]
    omega
  · rw [hdrop, List.map_drop, map_sequence_numbered (by omega), List.drop_range', hsound.next]
    congr 1 <;> omega
  · rw [hdrop, List.map_drop, map_message_numbered]

/-- The audit log is bounded and survives restarts: after every operation of a run the file is no
longer than it may be, memory has no more records than it may have, these are the most recent
messages with consecutive sequences that end before the next one, and opening the log again yields
the same log; so no two appends of the run use the same sequence. Assumes: the messages are plain and
fit the file, and there are fewer of them than the greatest sequence. -/
theorem audit_log_restart_safe {maxBytes maxRecords : ℕ} (hpos : 0 < maxRecords)
    (ops : List AuditOp) (hruns : (AuditStore.start maxBytes maxRecords hpos).Runs ops)
    (hcount : (appended ops).length < 2 ^ 64 - 1) :
    (∀ index ≤ ops.length,
      let store := (AuditStore.start maxBytes maxRecords hpos).after ops index
      let messages := appended (ops.take index)
      let kept := store.log.records.length
      Text.byteLength (store.file.getD []) ≤ maxBytes ∧ kept ≤ maxRecords ∧
      (messages ≠ [] → 0 < kept) ∧
      store.log.nextSeq.toNat = messages.length + 1 ∧
      store.log.records.map (·.sequence.toNat) =
        List.range' (store.log.nextSeq.toNat - kept) kept ∧
      store.log.records.map BoundedLogRecord.message = messages.drop (messages.length - kept) ∧
      AuditLog.openLog store.file maxBytes maxRecords hpos = store.log) ∧
    ∀ first second : ℕ, first < second → ∀ message other : String,
      ops[first]? = some (.append message) → ops[second]? = some (.append other) →
      (((AuditStore.start maxBytes maxRecords hpos).after ops first).log.nextRecord
        message).sequence ≠
      (((AuditStore.start maxBytes maxRecords hpos).after ops second).log.nextRecord
        other).sequence := by
  have hlt : ∀ index, (appended (ops.take index)).length + 1 < 2 ^ 64 := fun index ↦ by
    have hle := length_appended_take_le ops index
    omega
  have hnext : ∀ index, _ := fun index ↦ (AuditStore.sound_after hruns hcount index).1.next
  refine ⟨fun index _ ↦ ?_, fun first second hlater message other hfirst _ hsame ↦ ?_⟩
  · obtain ⟨hsound, hbytes, hrecords⟩ := AuditStore.sound_after hruns hcount index
    obtain ⟨hkept, hnonempty, hsequences, hmessages⟩ := hsound.records_eq (hlt index)
    have hopen := AuditStore.openLog_of_sound hsound (hlt index)
    refine ⟨hsound.bytes.trans_eq hbytes, hkept.trans_eq hrecords, hnonempty, hsound.next,
      hsequences, hmessages, ?_⟩
    simpa only [hbytes, hrecords] using hopen
  · -- The first append is one of the messages before the second.
    have hnumbers := congrArg UInt64.toNat hsame
    simp only [AuditLog.nextRecord, hnext] at hnumbers
    have htake : ops.take (first + 1) = ops.take first ++ [.append message] := by
      rw [List.take_add_one, hfirst, Option.toList_some]
    have hmore := length_appended_take_le (ops.take second) (first + 1)
    rw [List.take_take, Nat.min_eq_left (by omega), htake, appended_append,
      List.length_append] at hmore
    have hone : (appended [.append message]).length = 1 := rfl
    omega

/-- A log of two records in thirty bytes, with a restart between the messages. The third message makes
it write memory out. -/
def smallRun : List AuditOp :=
  [.append "connect a", .append "connect b", .reopen, .append "connect c"]

theorem smallRun_restart_safe :
    let store := (AuditStore.start 30 2 (Nat.zero_lt_succ 1)).after smallRun 4
    store.file = some "2\tconnect b\n3\tconnect c\n".toList ∧
      store.log.records = [⟨2, "connect b"⟩, ⟨3, "connect c"⟩] ∧
      AuditLog.openLog store.file 30 2 (Nat.zero_lt_succ 1) = store.log := by
  have hruns : (AuditStore.start 30 2 (Nat.zero_lt_succ 1)).Runs smallRun := by
    intro index op hop
    match index with
    | 0 => obtain rfl := Option.some.inj hop; decide
    | 1 => obtain rfl := Option.some.inj hop; decide
    | 2 => obtain rfl := Option.some.inj hop; decide
    | 3 => obtain rfl := Option.some.inj hop; decide
    | later + 4 => cases hop
  have hsafe := (audit_log_restart_safe (Nat.zero_lt_succ 1) smallRun hruns (by decide)).1 4 le_rfl
  exact ⟨by decide, by decide, hsafe.2.2.2.2.2.2⟩

end InterFire
