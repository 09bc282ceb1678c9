import InterFire.Dispatch

/-!
# The size and the time of the daemon's own process

`crates/interfire-daemon/src/proc_metrics.rs`, and the two parsers of stat records, the other of
which is `parseStartTicks`. Both count the fields of a record from its last closing parenthesis.

A `StatRecord` is a record with any command name. `afterLastParen_line` says that both parsers see
its fields and nothing else, and `stat_parsers_ignore_name` what they return.
-/

set_option autoImplicit false
set_option relaxedAutoImplicit false

namespace InterFire

open Text

/-- Why the metrics could not be sampled: a file that could not be read, or one that does not have
the expected form. -/
inductive MetricsError
  | io (error : String)
  | invalidData (error : String)
  deriving DecidableEq, Repr

/-- A number of a record, with its name before the text of an error. -/
def parseMetric (name word : String) : Except MetricsError ℕ :=
  (parseInt (2 ^ 64) word.toList).mapError fun error ↦ .invalidData (name ++ ": " ++ error.message)

/-- The numbers that a record may show. -/
theorem parseMetric_eq_ok_iff (name word : String) (value : ℕ) :
    parseMetric name word = .ok value ↔ parseUnsigned (2 ^ 64) word.toList = some value := by
  rw [← parseInt_eq_ok_iff (by decide), parseMetric]
  cases parseInt (2 ^ 64) word.toList with
  | error error => exact ⟨nofun, nofun⟩
  | ok number =>
    show Except.ok number = .ok value ↔ _
    rw [Except.ok.injEq, Except.ok.injEq]

/-- The resident size of a status record: the first word of the first line with its label. -/
def parseVmRssKib (status : String) : Except MetricsError UInt64 :=
  match (fileLines status.toList).findSome? (·.dropPrefix? "VmRSS:".toList) with
  | none => .error (.invalidData "VmRSS missing")
  | some rest =>
    match (words rest).head? with
    | none => .error (.invalidData "VmRSS missing value")
    | some kib => (parseMetric "VmRSS" kib).map UInt64.ofNat

/-- The user and system time of a stat record, whose sum stops at the greatest number. The fields
are counted from the final parenthesis: the times are the twelfth and thirteenth after it. -/
def parseCpuJiffies (stat : String) : Except MetricsError UInt64 := do
  let some rest := Process.afterLastParen stat.toList
    | throw (.invalidData "stat missing comm")
  let fields := words (rest.dropWhile isWhitespace)
  let some utime := fields[11]? | throw (.invalidData "stat missing utime")
  let some stime := fields[12]? | throw (.invalidData "stat missing stime")
  let utime ← parseMetric "utime" utime
  let stime ← parseMetric "stime" stime
  return UInt64.ofNat (min (utime + stime) (2 ^ 64 - 1))

/-- The metrics of the daemon's own process, from the outcomes of the reads of its status and stat
records. -/
def sampleSelf (pid : UInt32) (status stat : Except String String) :
    Except MetricsError SelfMetrics := do
  let rssKib ← parseVmRssKib (← status.mapError .io)
  let cpuJiffies ← parseCpuJiffies (← stat.mapError .io)
  return { pid, rssKib, cpuJiffies }

/-- The metrics that a status answer shows: zeros when they could not be sampled. -/
def shownMetrics (pid : UInt32) (status stat : Except String String) : SelfMetrics :=
  match sampleSelf pid status stat with
  | .ok metrics => metrics
  | .error _ => { pid, rssKib := 0, cpuJiffies := 0 }

/-! ### Stat records -/

/-- A stat record: a pid, a command name of any characters, at least twenty fields after it, and
white space at the end. -/
structure StatRecord where
  pid : ℕ
  comm : String
  fields : List String
  isWord : ∀ field ∈ fields, IsWord field
  paren_not_mem : ∀ field ∈ fields, ')' ∉ field.toList
  twenty_le : 20 ≤ fields.length
  ending : List Char
  isWhitespace_ending : ∀ character ∈ ending, isWhitespace character = true

namespace StatRecord

/-- The text after the command name. -/
def tail (record : StatRecord) : List Char :=
  ' ' :: (join ' ' (record.fields.map String.toList) ++ record.ending)

/-- The text of a record. -/
def line (record : StatRecord) : String :=
  String.ofList (Nat.toDigits 10 record.pid ++ " (".toList ++ record.comm.toList ++
    ')' :: record.tail)

/-- A field after the command name, by its number in the record, where the pid is field 1. -/
def field (record : StatRecord) (number : ℕ) : String := record.fields.getD (number - 3) ""

variable (record : StatRecord)

/-- Only the command name has a closing parenthesis. -/
theorem paren_not_mem_tail : ')' ∉ record.tail := by
  intro hmem
  rcases List.mem_cons.mp hmem with hspace | hmem
  · exact absurd hspace (by decide)
  · rcases List.mem_append.mp hmem with hfields | hending
    · rcases mem_of_mem_join hfields with hspace | ⟨piece, hpiece, hparen⟩
      · exact absurd hspace (by decide)
      · obtain ⟨field, hfield, rfl⟩ := List.mem_map.mp hpiece
        exact record.paren_not_mem field hfield hparen
    · exact absurd (record.isWhitespace_ending ')' hending) (by decide)

/-- The words after the command name are the fields. -/
theorem words_tail : words record.tail = record.fields := by
  have hjoin := words_join_of_isWord record.isWord
  have hending := record.isWhitespace_ending
  rw [tail, ← List.nil_append (' ' :: _), words_append _ _ (by decide), words_nil, List.nil_append]
  cases hcases : record.ending with
  | nil => rw [List.append_nil, hjoin]
  | cons space rest =>
    rw [hcases] at hending
    rw [words_append _ _ (hending space List.mem_cons_self), hjoin,
      words_eq_nil fun character hmem ↦ hending character (.tail space hmem), List.append_nil]

/-- What follows the last parenthesis of a record, whatever its command name. -/
theorem afterLastParen_line : Process.afterLastParen record.line.toList = some record.tail := by
  rw [line, String.toList_ofList]
  exact Process.afterLastParen_append _ record.paren_not_mem_tail

/-- A field that the record has is found among the words. Assumes: its number is that of one of the
first twenty fields after the name. -/
theorem getElem?_words_tail {index : ℕ} (hindex : index < 20) :
    (words record.tail)[index]? = some (record.field (index + 3)) := by
  have hlt : index < record.fields.length := hindex.trans_le record.twenty_le
  rw [words_tail, field, Nat.add_sub_cancel, List.getD_eq_getElem?_getD,
    List.getElem?_eq_getElem hlt, Option.getD_some]

/-! ### What the parsers return -/

/-- A number below the greatest word is that of one word. Assumes: it is below. -/
theorem ofNat_eq_iff {value : ℕ} (hvalue : value < 2 ^ 64) (word : UInt64) :
    UInt64.ofNat value = word ↔ value = word.toNat := by
  rw [← UInt64.toNat_inj, UInt64.toNat_ofNat', Nat.mod_eq_of_lt hvalue]

/-- The start time of a record is the number of its field 22. -/
theorem parseStartTicks_line_eq_ok_iff (ticks : UInt64) :
    Process.parseStartTicks record.line = .ok ticks ↔
      parseUnsigned (2 ^ 64) (record.field 22).toList = some ticks.toNat := by
  unfold Process.parseStartTicks
  simp only [Option.bind_eq_bind, afterLastParen_line, Option.bind_some]
  rw [record.getElem?_words_tail (show 19 < 20 by decide), Option.bind_some]
  cases hparse : parseUnsigned (2 ^ 64) (record.field 22).toList with
  | none => exact ⟨nofun, nofun⟩
  | some value =>
    dsimp only
    rw [Except.ok.injEq, Option.some_inj, ofNat_eq_iff (lt_of_parseUnsigned hparse)]

/-- The time of a record is the sum of its fields 14 and 15, at most the greatest number. -/
theorem parseCpuJiffies_line_eq_ok_iff (jiffies : UInt64) :
    parseCpuJiffies record.line = .ok jiffies ↔ ∃ utime stime,
      parseUnsigned (2 ^ 64) (record.field 14).toList = some utime ∧
      parseUnsigned (2 ^ 64) (record.field 15).toList = some stime ∧
      jiffies.toNat = min (utime + stime) (2 ^ 64 - 1) := by
  unfold parseCpuJiffies
  rw [afterLastParen_line]
  dsimp only
  rw [words_dropWhile, record.getElem?_words_tail (show 11 < 20 by decide),
    record.getElem?_words_tail (show 12 < 20 by decide)]
  dsimp only
  simp only [← parseMetric_eq_ok_iff "utime" (record.field 14),
    ← parseMetric_eq_ok_iff "stime" (record.field 15)]
  cases parseMetric "utime" (record.field 14) with
  | error error =>
    refine ⟨nofun, ?_⟩
    rintro ⟨utime, stime, hutime, -, -⟩
    cases hutime
  | ok utime =>
    cases parseMetric "stime" (record.field 15) with
    | error error =>
      refine ⟨nofun, ?_⟩
      rintro ⟨utime, stime, -, hstime, -⟩
      cases hstime
    | ok stime =>
      have hsum : min (utime + stime) (2 ^ 64 - 1) < 2 ^ 64 := by omega
      show Except.ok (UInt64.ofNat (min (utime + stime) (2 ^ 64 - 1))) = .ok jiffies ↔ _
      rw [Except.ok.injEq, ofNat_eq_iff hsum]
      constructor
      · exact fun hjiffies ↦ ⟨utime, stime, rfl, rfl, hjiffies.symm⟩
      · rintro ⟨_, _, ⟨⟩, ⟨⟩, hjiffies⟩
        exact hjiffies.symm

/-- The parsers see what follows the command name. -/
theorem parsers_of_tail_eq {record other : StatRecord} (htail : other.tail = record.tail) :
    Process.parseStartTicks other.line = Process.parseStartTicks record.line ∧
      parseCpuJiffies other.line = parseCpuJiffies record.line := by
  unfold Process.parseStartTicks parseCpuJiffies
  rw [afterLastParen_line, afterLastParen_line, htail]
  exact ⟨rfl, rfl⟩

/-- For every pid, every command name and every list of at least twenty fields the start time is
the number of field 22 exactly when it is a word of 64 bits, the time is the sum of fields 14 and
15, at most the greatest word, exactly when both are, and no pid and no command name changes
either. -/
theorem stat_parsers_ignore_name (record : StatRecord) :
    (∀ ticks : UInt64, Process.parseStartTicks record.line = .ok ticks ↔
      parseUnsigned (2 ^ 64) (record.field 22).toList = some ticks.toNat) ∧
    (∀ jiffies : UInt64, parseCpuJiffies record.line = .ok jiffies ↔ ∃ utime stime,
      parseUnsigned (2 ^ 64) (record.field 14).toList = some utime ∧
      parseUnsigned (2 ^ 64) (record.field 15).toList = some stime ∧
      jiffies.toNat = min (utime + stime) (2 ^ 64 - 1)) ∧
    ∀ (pid : ℕ) (comm : String),
      Process.parseStartTicks { record with pid, comm }.line =
        Process.parseStartTicks record.line ∧
      parseCpuJiffies { record with pid, comm }.line = parseCpuJiffies record.line :=
  ⟨record.parseStartTicks_line_eq_ok_iff, record.parseCpuJiffies_line_eq_ok_iff,
    fun _ _ ↦ parsers_of_tail_eq rfl⟩

/-- The name of the daemon's own process does not change the metrics that it shows. -/
theorem shownMetrics_line (pid : UInt32) (status : Except String String) (comm : String) :
    shownMetrics pid status (.ok { record with comm }.line) =
      shownMetrics pid status (.ok record.line) := by
  have htail : { record with comm }.tail = record.tail := rfl
  simp only [shownMetrics, sampleSelf, Except.mapError, bind, Except.bind,
    (parsers_of_tail_eq htail).2]

end StatRecord

/-- A command name that spells the end of a record. -/
example : parseCpuJiffies "7 (x) R 1 9) S 0 0 0 0 0 0 0 0 0 0 100 200 0 0 20 0 1 0 4242\n" =
    .ok 300 := by decide

end InterFire
