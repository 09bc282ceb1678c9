import InterFire.AuditClients
import InterFire.Library.LineReader
import InterFire.Library.Utf8

/-!
# The audit stream as bytes

`subscribe_session` of the desktop client (`ui/src/audit_host.rs`) on what its socket delivers. The
socket has a read timeout, so that the thread notices a stop. The loop clears the line before each
read, and a read that times out has already put what had arrived into the line: that part is lost, and
what follows is read as a line of its own.

`subscribeBytes_eq` reduces a session to the lines of its stream, whatever the chunks.
`delivered_iff_timeouts_between_lines` says that the records of well-formed frames are delivered
exactly when no timeout comes inside a line. The necessity rests on `kind_of_end`: the end of a frame
is never read as the record of the frame.

The application takes every event, and does not stop the session.
-/

set_option autoImplicit false
set_option relaxedAutoImplicit false

namespace InterFire

open LineReader

/-- The byte that ends a line. -/
def newline : UInt8 := 10

/-- The error of a line that is not a text. -/
def invalidUtf8 : String := "stream did not contain valid UTF-8"

/-- One session after `last`, on the buffer of its reader and what the socket delivers. -/
def subscribeBytes (last : UInt64) (buffer : List UInt8) (reads : List (SocketRead UInt8)) :
    List AuditEvent × Except String UInt64 :=
  match _hread : LineReader.readLine newline [] buffer reads with
  -- What the line holds is cleared before the next read.
  | .timedOut _ after rest => subscribeBytes last after rest
  | .line bytes after rest =>
    if _hbytes : bytes = [] then ([], .ok last)
    else
      match Utf8.decode bytes with
      | none => ([], .error invalidUtf8)
      | some text =>
        match (AuditClient.desktop.hear (text, true)).kind with
        | .tooLarge => ([], .error "frame_too_large")
        | .malformed => ([], .error "malformed_audit")
        | .replaced => subscribeBytes last after rest
        | .ready =>
          let (events, result) := subscribeBytes last after rest
          (.ready :: events, result)
        | .record record =>
          let (events, result) := subscribeBytes record.sequence after rest
          (.record record :: events, result)
termination_by (stream buffer reads).length
decreasing_by
  · exact length_stream_lt_of_timedOut _hread
  · exact length_stream_lt _hread _hbytes
  · exact length_stream_lt _hread _hbytes
  · exact length_stream_lt _hread _hbytes

/-- The texts of lines, up to the first one that is not a text, with the error that it is. -/
def decodeLines : List (List UInt8) → List (List Char) × Option String
  | [] => ([], none)
  | bytes :: rest =>
    match Utf8.decode bytes with
    | none => ([], some invalidUtf8)
    | some text => (text :: (decodeLines rest).1, (decodeLines rest).2)

/-- The session of the desktop client in which lines are read. -/
def heardSession (lines : List (List UInt8)) : AuditSession :=
  .opened ((decodeLines lines).1.map (·, true)) (decodeLines lines).2

theorem session_nil (last : UInt64) : AuditClient.desktop.session last (heardSession []) = ([], .ok last) :=
  rfl

theorem session_cons_of_none {bytes : List UInt8} (hdecode : Utf8.decode bytes = none)
    (rest : List (List UInt8)) (last : UInt64) :
    AuditClient.desktop.session last (heardSession (bytes :: rest)) = ([], .error invalidUtf8) := by
  rw [heardSession, decodeLines, hdecode]
  rfl

theorem session_cons_of_some {bytes : List UInt8} {text : List Char}
    (hdecode : Utf8.decode bytes = some text) (rest : List (List UInt8)) (last : UInt64) :
    AuditClient.desktop.session last (heardSession (bytes :: rest)) =
      match (AuditClient.desktop.hear (text, true)).kind with
      | .tooLarge => ([], .error "frame_too_large")
      | .malformed => ([], .error "malformed_audit")
      | .replaced => AuditClient.desktop.session last (heardSession rest)
      | .ready =>
        (.ready :: (AuditClient.desktop.session last (heardSession rest)).1,
          (AuditClient.desktop.session last (heardSession rest)).2)
      | .record record =>
        (.record record :: (AuditClient.desktop.session record.sequence (heardSession rest)).1,
          (AuditClient.desktop.session record.sequence (heardSession rest)).2) := by
  rw [heardSession, decodeLines, hdecode]
  dsimp only
  rw [AuditClient.session, List.map_cons, List.map_cons, subscribeSession]
  rfl

/-- A session reads the lines of its stream, whatever the chunks. -/
theorem subscribeBytes_eq (last : UInt64) (buffer : List UInt8) (reads : List (SocketRead UInt8)) :
    subscribeBytes last buffer reads =
      AuditClient.desktop.session last (heardSession (linesOf newline [] (stream buffer reads))) := by
  fun_induction subscribeBytes last buffer reads with
  | case1 last buffer reads dropped after rest hread ih =>
    rw [linesOf_of_timedOut hread, ih]
  | case2 last buffer reads after rest hread =>
    rw [linesOf_of_line hread, if_pos rfl, session_nil]
  | case3 last buffer reads bytes after rest hread hbytes hdecode =>
    rw [linesOf_of_line hread, if_neg hbytes, session_cons_of_none hdecode]
  | case4 last buffer reads bytes after rest hread hbytes text hdecode hkind =>
    rw [linesOf_of_line hread, if_neg hbytes, session_cons_of_some hdecode, hkind]
  | case5 last buffer reads bytes after rest hread hbytes text hdecode hkind =>
    rw [linesOf_of_line hread, if_neg hbytes, session_cons_of_some hdecode, hkind]
  | case6 last buffer reads bytes after rest hread hbytes text hdecode hkind ih =>
    rw [linesOf_of_line hread, if_neg hbytes, session_cons_of_some hdecode, hkind, ih]
  | case7 last buffer reads bytes after rest hread hbytes text hdecode hkind events result hrest ih =>
    rw [linesOf_of_line hread, if_neg hbytes, session_cons_of_some hdecode, hkind]
    rw [hrest] at ih
    dsimp only
    rw [← ih]
  | case8 last buffer reads bytes after rest hread hbytes text hdecode record hkind events result
      hrest ih =>
    rw [linesOf_of_line hread, if_neg hbytes, session_cons_of_some hdecode, hkind]
    rw [hrest] at ih
    dsimp only
    rw [← ih]

/-! ### Frames -/

/-- A frame of the stream: the answer to the subscription, the note that another one replaces it, or a
record. -/
inductive AuditFrame
  | subscribed
  | replaced
  | record (entry : AuditStreamRecord)
  deriving DecidableEq, Repr

namespace AuditFrame

/-- The line of a frame. -/
def line : AuditFrame → List Char
  | .subscribed => "v1 subscribed interfire-ui".toList
  | .replaced => "v1 audit-replaced".toList
  | .record entry => "v1 audit ".toList ++ (decimal entry.sequence.toNat).toList ++
      '|' :: entry.message.toList

/-- The bytes of a frame, with the end of its line. -/
def bytes (frame : AuditFrame) : List UInt8 := Utf8.encode (frame.line ++ ['\n'])

def record? : AuditFrame → Option AuditStreamRecord
  | .record entry => some entry
  | _ => none

/-- What a client makes of the whole line. -/
def kind : AuditFrame → LineKind
  | .subscribed => .ready
  | .replaced => .replaced
  | .record entry => .record entry

/-- The message of a record is the rest of one line, and its frame is within the limit. -/
def WellFormed : AuditFrame → Prop
  | .record entry =>
    '\n' ∉ entry.message.toList ∧ entry.message.toList.getLast? ≠ some '\r' ∧
      (AuditFrame.record entry).bytes.length ≤ maxFrameBytes
  | _ => True

end AuditFrame

theorem not_mem_decimal (value : ℕ) {symbol : Char} (hsymbol : symbol.isDigit = false) :
    symbol ∉ (decimal value).toList := by
  rw [toList_decimal]
  exact Text.not_mem_toDigits hsymbol value

namespace AuditFrame

variable {frame : AuditFrame}

theorem line_record (entry : AuditStreamRecord) :
    (AuditFrame.record entry).line = ['v', '1'] ++ ' ' :: (['a', 'u', 'd', 'i', 't'] ++ ' ' ::
      ((decimal entry.sequence.toNat).toList ++ '|' :: entry.message.toList)) := by
  have hstart : "v1 audit ".toList = ['v', '1', ' ', 'a', 'u', 'd', 'i', 't', ' '] := by decide
  calc (AuditFrame.record entry).line
    _ = "v1 audit ".toList ++ (decimal entry.sequence.toNat).toList ++
        '|' :: entry.message.toList := rfl
    _ = _ := by rw [hstart, List.append_assoc]; rfl

/-- The line of a frame does not end another one. -/
theorem not_breaksLine (hwell : frame.WellFormed) :
    ∀ last, frame.line.getLast? = some last → ¬ BreaksLine last := by
  have hfixed : ∀ final : Char, frame.line.getLast? = some final → final ≠ '\r' → final ≠ '\n' →
      ∀ last, frame.line.getLast? = some last → ¬ BreaksLine last := by
    intro final hfinal hreturn hnewline last hlast
    obtain rfl := Option.some.inj (hfinal.symm.trans hlast)
    exact not_or.mpr ⟨hreturn, hnewline⟩
  cases frame with
  | subscribed => exact hfixed 'i' (by decide) (by decide) (by decide)
  | replaced => exact hfixed 'd' (by decide) (by decide) (by decide)
  | record entry =>
    have hparts : (AuditFrame.record entry).line.getLast? =
        some (entry.message.toList.getLast?.getD '|') := by
      rw [line_record, ← List.cons_append, ← List.append_assoc, ← List.cons_append,
        ← List.append_assoc, List.getLast?_append, List.getLast?_cons, Option.some_or]
    cases hmessage : entry.message.toList.getLast? with
    | none =>
      rw [hmessage, Option.getD_none] at hparts
      exact hfixed '|' hparts (by decide) (by decide)
    | some final =>
      rw [hmessage, Option.getD_some] at hparts
      refine hfixed final hparts ?_ ?_
      · rintro rfl
        exact hwell.2.1 hmessage
      · rintro rfl
        exact hwell.1 (List.mem_of_getLast? hmessage)

/-- A record is read from its line. -/
theorem parse_line {entry : AuditStreamRecord} (hwell : (AuditFrame.record entry).WellFormed) :
    AuditStreamRecord.parse (AuditFrame.record entry).line = .ok entry := by
  have hsplit : Text.splitN ' ' 3 (AuditFrame.record entry).line = [['v', '1'],
      ['a', 'u', 'd', 'i', 't'], (decimal entry.sequence.toNat).toList ++
        '|' :: entry.message.toList] := by
    rw [line_record, Text.splitN, Text.splitOnce_append (by decide)]
    dsimp only
    rw [Text.splitN, Text.splitOnce_append (by decide)]
    rfl
  have hcut : Text.splitOnce '|' ((decimal entry.sequence.toNat).toList ++
      '|' :: entry.message.toList) =
        ((decimal entry.sequence.toNat).toList, some entry.message.toList) :=
    Text.splitOnce_append (not_mem_decimal _ (by decide)) _
  have hnumber : Text.parseUnsigned (2 ^ 64) (decimal entry.sequence.toNat).toList =
      some entry.sequence.toNat := by
    rw [toList_decimal]
    exact Text.parseUnsigned_toDigits entry.sequence.toNat_lt
  have hversion : "v1".toList = ['v', '1'] := by decide
  have hcommand : "audit".toList = ['a', 'u', 'd', 'i', 't'] := by decide
  rw [AuditStreamRecord.parse, PromptRow.trimEnd_eq_self (not_breaksLine hwell), hsplit]
  dsimp only
  rw [hversion, if_neg (not_not.mpr rfl), hcommand, List.head?_cons, if_neg (not_not.mpr rfl),
    List.getElem?_cons_succ, List.getElem?_cons_zero, Option.map_some, hcut]
  dsimp only
  rw [hnumber]
  simp

/-- A whole line is what the frame says. -/
theorem kind_line (hwell : frame.WellFormed) :
    (AuditClient.desktop.hear (frame.line ++ ['\n'], true)).kind = frame.kind := by
  have htext : (AuditClient.desktop.hear (frame.line ++ ['\n'], true)).text = frame.line :=
    PromptRow.trimEnd_append (not_breaksLine hwell)
  cases frame with
  | subscribed => decide
  | replaced => decide
  | record entry =>
    have hsize : ¬ maxFrameBytes <
        (AuditClient.desktop.hear ((AuditFrame.record entry).line ++ ['\n'], true)).bytes := by
      have hbytes := hwell.2.2
      rw [bytes, Utf8.length_encode] at hbytes
      exact not_lt.mpr hbytes
    have hsubscribed : ¬ "v1 subscribed ".toList.isPrefixOf (AuditFrame.record entry).line := by
      rw [line_record]
      exact Bool.false_ne_true
    have hreplaced : (AuditFrame.record entry).line ≠ "v1 audit-replaced".toList := by
      rw [line_record]
      have hword : "v1 audit-replaced".toList[8]? = some '-' := by decide
      intro heq
      rw [← heq] at hword
      cases hword
    rw [HeardLine.kind, if_neg hsize, htext, if_neg hsubscribed, if_neg hreplaced, parse_line hwell]
    rfl

end AuditFrame

/-! ### Ends of frames -/

theorem PromptRow.trimEnd_isPrefix (line : List Char) : PromptRow.trimEnd line <+: line := by
  rw [← List.reverse_suffix, PromptRow.trimEnd, List.reverse_reverse]
  exact List.dropWhile_suffix _

/-- The text of a record. Assumes: it is read as one. -/
theorem AuditStreamRecord.eq_of_parse {frame : List Char} {record : AuditStreamRecord}
    (hparse : AuditStreamRecord.parse frame = .ok record) :
    ∃ sequence, PromptRow.trimEnd frame = ['v', '1'] ++ ' ' :: (['a', 'u', 'd', 'i', 't'] ++
      ' ' :: (sequence ++ '|' :: record.message.toList)) := by
  have hjoin := Text.join_splitN ' ' 2 (PromptRow.trimEnd frame)
  have hlimit := Text.length_splitN_le ' ' 3 (PromptRow.trimEnd frame)
  have hversion : "v1".toList = ['v', '1'] := by decide
  have hcommand : "audit".toList = ['a', 'u', 'd', 'i', 't'] := by decide
  rw [AuditStreamRecord.parse] at hparse
  cases hpieces : Text.splitN ' ' 3 (PromptRow.trimEnd frame) with
  | nil =>
    rw [hpieces] at hparse
    cases hparse
  | cons version fields =>
    rw [hpieces] at hparse hjoin hlimit
    dsimp only at hparse
    split_ifs at hparse with hfirst hsecond
    split at hparse
    · next sequence message hthird =>
      split at hparse
      · next number hnumber =>
        obtain rfl := Except.ok.inj hparse
        obtain ⟨third, hthird, hcut⟩ := Option.map_eq_some_iff.mp hthird
        -- Exactly three pieces: the last one takes what is left.
        obtain ⟨command, rfl⟩ : ∃ command, fields = [command, third] := by
          match fields with
          | [] => cases hthird
          | [command] => cases hthird
          | [command, other] => exact ⟨command, by rw [Option.some.inj hthird]⟩
          | command :: other :: fourth :: more =>
            rw [List.length_cons, List.length_cons, List.length_cons, List.length_cons] at hlimit
            omega
        have hcommand' : command = "audit".toList := Option.some.inj (not_not.mp hsecond)
        refine ⟨sequence, ?_⟩
        rw [← hjoin, Text.join_cons_cons, Text.join_cons_cons, not_not.mp hfirst, hcommand', hversion,
          hcommand, Text.eq_append_of_splitOnce hcut, String.toList_ofList]
        simp [Text.join]
      · cases hparse
    · cases hparse

/-- A line that is read as a record has the text of one. Assumes: it is read so. -/
theorem HeardLine.parse_of_kind {line : HeardLine} {record : AuditStreamRecord}
    (hkind : line.kind = .record record) : AuditStreamRecord.parse line.text = .ok record := by
  unfold HeardLine.kind at hkind
  split_ifs at hkind
  cases hparse : AuditStreamRecord.parse line.text with
  | error =>
    rw [hparse] at hkind
    cases hkind
  | ok other =>
    rw [hparse] at hkind
    rw [LineKind.record.inj hkind]

/-- A line that is read as a record starts with a version, and has more than the message. Assumes: it
is read so. -/
theorem head?_of_kind_record {text : List Char} {record : AuditStreamRecord}
    (hkind : (AuditClient.desktop.hear (text, true)).kind = .record record) :
    text.head? = some 'v' ∧
      Text.byteLength record.message.toList + 2 ≤ Text.byteLength text := by
  obtain ⟨sequence, htrimmed⟩ :=
    AuditStreamRecord.eq_of_parse (HeardLine.parse_of_kind hkind)
  have hstart : PromptRow.trimEnd (PromptRow.trimEnd text) <+: text :=
    (PromptRow.trimEnd_isPrefix _).trans (PromptRow.trimEnd_isPrefix text)
  have htext : (AuditClient.desktop.hear (text, true)).text = PromptRow.trimEnd text := rfl
  rw [htext] at htrimmed
  rw [htrimmed] at hstart
  refine ⟨?_, ?_⟩
  · obtain ⟨rest, rfl⟩ := hstart
    rfl
  · have hlength := Text.byteLength_mono hstart
    simp only [Text.byteLength_append, Text.byteLength_cons] at hlength
    have hfirst := Char.utf8Size_pos 'v'
    have hmark := Char.utf8Size_pos '|'
    omega

/-- A text that does not start as frames do is refused. Assumes: it is within the limit. -/
theorem kind_eq_malformed {text : List Char} (hhead : text.head? ≠ some 'v')
    (hsize : Text.byteLength text ≤ maxFrameBytes) :
    (AuditClient.desktop.hear (text, true)).kind = .malformed := by
  have hstart : ∀ rest, ¬ 'v' :: rest <+: PromptRow.trimEnd text := by
    intro rest htrimmed
    obtain ⟨later, rfl⟩ := htrimmed.trans (PromptRow.trimEnd_isPrefix text)
    exact hhead rfl
  have hsubscribed : ¬ "v1 subscribed ".toList.isPrefixOf (PromptRow.trimEnd text) := by
    have hword : "v1 subscribed ".toList = 'v' :: "1 subscribed ".toList := by decide
    rw [hword, List.isPrefixOf_iff_prefix]
    exact hstart _
  have hreplaced : PromptRow.trimEnd text ≠ "v1 audit-replaced".toList := by
    have hword : "v1 audit-replaced".toList = 'v' :: "1 audit-replaced".toList := by decide
    rw [hword]
    intro heq
    rw [heq] at hstart
    exact hstart _ (List.prefix_refl _)
  have hbytes : ¬ maxFrameBytes < (AuditClient.desktop.hear (text, true)).bytes := not_lt.mpr hsize
  have htext : (AuditClient.desktop.hear (text, true)).text = PromptRow.trimEnd text := rfl
  rw [HeardLine.kind, if_neg hbytes, htext, if_neg hsubscribed, if_neg hreplaced]
  cases hparse : AuditStreamRecord.parse (PromptRow.trimEnd text) with
  | error => rfl
  | ok record =>
    obtain ⟨sequence, htrimmed⟩ := AuditStreamRecord.eq_of_parse hparse
    exact absurd (htrimmed ▸ PromptRow.trimEnd_isPrefix (PromptRow.trimEnd text)) (hstart _)

/-- An end that starts beyond the first part is an end of the second one. Assumes: it starts with
nothing that the first part has. -/
theorem suffix_of_head?_notMem {α : Type*} {part first second : List α} {head : α}
    (hhead : part.head? = some head) (hmem : head ∉ first) (hpart : part <:+ first ++ second) :
    part <:+ second := by
  induction first with
  | nil => exact hpart
  | cons byte first ih =>
    rw [List.cons_append, List.suffix_cons_iff] at hpart
    rcases hpart with rfl | hrest
    · obtain rfl := Option.some.inj hhead
      exact absurd List.mem_cons_self hmem
    · exact ih (fun hlater ↦ hmem (List.mem_cons_of_mem byte hlater)) hrest

namespace AuditFrame

variable {frame : AuditFrame} {part : List UInt8}

/-- The end of the frame of a record is not read as the record. Assumes: it is not the whole frame. -/
theorem record_ne_of_end {entry record : AuditStreamRecord}
    (hend : EndOf part (AuditFrame.record entry).bytes) (hpart : part ≠ (AuditFrame.record entry).bytes)
    {text : List Char} (hdecode : Utf8.decode part = some text)
    (hkind : (AuditClient.desktop.hear (text, true)).kind = .record record) : record ≠ entry := by
  rintro rfl
  obtain ⟨hhead, hlength⟩ := head?_of_kind_record hkind
  obtain rfl := (Utf8.decode_eq_some_iff part text).mp hdecode
  obtain ⟨rest, rfl⟩ := List.head?_eq_some_iff.mp hhead
  -- What precedes the message, after the first byte.
  obtain ⟨header, hheader⟩ : ∃ header, header = ['1', ' ', 'a', 'u', 'd', 'i', 't', ' '] ++
      (decimal record.sequence.toNat).toList ++ ['|'] := ⟨_, rfl⟩
  have hline : (AuditFrame.record record).line ++ ['\n'] =
      'v' :: (header ++ (record.message.toList ++ ['\n'])) := by
    rw [line_record, hheader]
    simp
  have hversion : String.utf8EncodeChar 'v' = [118] := by decide
  have hbytes : (AuditFrame.record record).bytes = 118 :: (Utf8.encode header ++
      Utf8.encode (record.message.toList ++ ['\n'])) := by
    rw [bytes, hline, Utf8.encode_cons, Utf8.encode_append, hversion, List.singleton_append]
  have hmem : (118 : UInt8) ∉ Utf8.encode header := by
    intro hmem
    obtain ⟨character, hcharacter, hcode⟩ := Utf8.exists_of_mem_encode (by decide) hmem
    obtain rfl : character = 'v' := Char.toNat_inj.mp hcode
    have hdigits : 'v' ∉ (decimal record.sequence.toNat).toList := not_mem_decimal _ (by decide)
    rw [hheader] at hcharacter
    simp [hdigits] at hcharacter
  have hfirst : (Utf8.encode ('v' :: rest)).head? = some 118 := by
    rw [Utf8.encode_cons, hversion]
    rfl
  have hinside : Utf8.encode ('v' :: rest) <:+ Utf8.encode (record.message.toList ++ ['\n']) := by
    refine suffix_of_head?_notMem hfirst hmem ?_
    have hsuffix := hend.2
    rw [hbytes, List.suffix_cons_iff] at hsuffix
    rcases hsuffix with hwhole | hrest
    · exact absurd (hwhole.trans hbytes.symm) hpart
    · exact hrest
  have hle := hinside.length_le
  rw [Utf8.length_encode, Utf8.length_encode, Text.byteLength_append] at hle
  have hnewline : Text.byteLength ['\n'] = 1 := by decide
  omega

/-- The end of a frame without a record is refused. Assumes: it is not the whole frame. -/
theorem malformed_of_end (hrecord : frame.record? = none) (hend : EndOf part frame.bytes)
    (hpart : part ≠ frame.bytes) :
    ∃ text, Utf8.decode part = some text ∧
      (AuditClient.desktop.hear (text, true)).kind = .malformed := by
  have hascii : ∀ character ∈ frame.line ++ ['\n'], character.utf8Size = 1 := by
    have hall : (frame.line ++ ['\n']).all (·.utf8Size = 1) = true := by
      cases frame with
      | subscribed => decide
      | replaced => decide
      | record entry => cases hrecord
    intro character hcharacter
    exact of_decide_eq_true (List.all_eq_true.mp hall character hcharacter)
  have htails : ∀ tail ∈ (frame.line ++ ['\n']).tails, tail = frame.line ++ ['\n'] ∨
      tail.head? ≠ some 'v' := by
    cases frame with
    | subscribed => decide
    | replaced => decide
    | record entry => cases hrecord
  have hlimit : Text.byteLength (frame.line ++ ['\n']) ≤ maxFrameBytes := by
    cases frame with
    | subscribed => decide
    | replaced => decide
    | record entry => cases hrecord
  obtain ⟨tail, htail, rfl⟩ := Utf8.exists_of_suffix_encode hascii hend.2
  refine ⟨tail, Utf8.decode_encode tail, ?_⟩
  rcases htails tail ((List.mem_tails tail _).mpr htail) with rfl | hhead
  · exact absurd rfl hpart
  · obtain ⟨start, hstart⟩ := htail
    rw [← hstart, Text.byteLength_append] at hlimit
    exact kind_eq_malformed hhead (by omega)

/-! ### What is delivered -/

/-- The sequence after a frame. -/
def after (last : UInt64) : AuditFrame → UInt64
  | .record entry => entry.sequence
  | _ => last

end AuditFrame

/-- The records that a session delivers which reads lines. -/
def deliveredLines (last : UInt64) (lines : List (List UInt8)) : List AuditStreamRecord :=
  (AuditClient.desktop.session last (heardSession lines)).1.filterMap AuditEvent.record?

/-- How such a session ends. -/
def endOfLines (last : UInt64) (lines : List (List UInt8)) : Except String UInt64 :=
  (AuditClient.desktop.session last (heardSession lines)).2

namespace AuditFrame

variable {frame : AuditFrame} {part : List UInt8}

/-- A whole frame delivers its record, and the session goes on. -/
theorem session_cons_whole (hwell : frame.WellFormed) (last : UInt64) (rest : List (List UInt8)) :
    deliveredLines last (frame.bytes :: rest) =
        frame.record?.toList ++ deliveredLines (frame.after last) rest ∧
      endOfLines last (frame.bytes :: rest) = endOfLines (frame.after last) rest := by
  have hdecode : Utf8.decode frame.bytes = some (frame.line ++ ['\n']) := Utf8.decode_encode _
  rw [deliveredLines, endOfLines, session_cons_of_some hdecode, kind_line hwell]
  cases frame with
  | subscribed => exact ⟨rfl, rfl⟩
  | replaced => exact ⟨rfl, rfl⟩
  | record entry => exact ⟨rfl, rfl⟩

/-- A part of a frame without a record ends the session. Assumes: it is not the whole frame. -/
theorem session_cons_plain (hrecord : frame.record? = none) (hend : EndOf part frame.bytes)
    (hpart : part ≠ frame.bytes) (last : UInt64) (rest : List (List UInt8)) :
    deliveredLines last (part :: rest) = [] ∧
      endOfLines last (part :: rest) = .error "malformed_audit" := by
  obtain ⟨text, hdecode, hkind⟩ := malformed_of_end hrecord hend hpart
  rw [deliveredLines, endOfLines, session_cons_of_some hdecode, hkind]
  exact ⟨rfl, rfl⟩

/-- A part of the frame of a record delivers nothing, or another record. Assumes: it is not the whole
frame. -/
theorem session_cons_part {entry : AuditStreamRecord}
    (hend : EndOf part (AuditFrame.record entry).bytes)
    (hpart : part ≠ (AuditFrame.record entry).bytes) (last : UInt64) (rest : List (List UInt8)) :
    deliveredLines last (part :: rest) = [] ∨
      deliveredLines last (part :: rest) = deliveredLines last rest ∨
      ∃ record ≠ entry, deliveredLines last (part :: rest) =
        record :: deliveredLines record.sequence rest := by
  rw [deliveredLines]
  cases hdecode : Utf8.decode part with
  | none =>
    rw [session_cons_of_none hdecode]
    exact .inl rfl
  | some text =>
    rw [session_cons_of_some hdecode]
    cases hkind : (AuditClient.desktop.hear (text, true)).kind with
    | tooLarge => exact .inl rfl
    | malformed => exact .inl rfl
    | replaced => exact .inr (.inl rfl)
    | ready => exact .inr (.inl rfl)
    | record record => exact .inr (.inr ⟨record, record_ne_of_end hend hpart hdecode hkind, rfl⟩)

theorem eq_record {entry : AuditStreamRecord} (hrecord : frame.record? = some entry) :
    frame = .record entry := by
  cases frame with
  | subscribed => cases hrecord
  | replaced => cases hrecord
  | record other => exact congrArg AuditFrame.record (Option.some.inj hrecord)

theorem filterMap_cons (frame : AuditFrame) (frames : List AuditFrame) :
    (frame :: frames).filterMap record? = frame.record?.toList ++ frames.filterMap record? := by
  rw [List.filterMap_cons]
  cases frame.record? <;> rfl

variable {frames : List AuditFrame} {parts : List (List UInt8)}

/-- A session delivers no more records than are sent. Assumes: its lines are ends of the frames. -/
theorem length_deliveredLines_le (hwell : ∀ frame ∈ frames, frame.WellFormed)
    (hparts : List.Forall₂ EndOf parts (frames.map bytes)) (last : UInt64) :
    (deliveredLines last parts).length ≤ (frames.filterMap record?).length := by
  induction frames generalizing parts last with
  | nil =>
    cases hparts
    exact le_rfl
  | cons frame frames ih =>
    cases hparts with
    | @cons part _ parts _ hend hrest =>
      obtain ⟨hframe, hframes⟩ := List.forall_mem_cons.mp hwell
      rw [filterMap_cons, List.length_append]
      by_cases hpart : part = frame.bytes
      · have hlater := ih hframes hrest (frame.after last)
        rw [hpart, (session_cons_whole hframe last parts).1,
          List.length_append]
        omega
      · cases hrecord : frame.record? with
        | none =>
          rw [(session_cons_plain hrecord hend hpart last parts).1]
          exact Nat.zero_le _
        | some entry =>
          obtain rfl := eq_record hrecord
          rw [Option.toList_some, List.length_singleton]
          rcases session_cons_part hend hpart last parts with hnone | hskip | ⟨record, -, hother⟩
          · rw [hnone]
            exact Nat.zero_le _
          · have hlater := ih hframes hrest last
            rw [hskip]
            omega
          · have hlater := ih hframes hrest record.sequence
            rw [hother, List.length_cons]
            omega

/-- The records that are sent are delivered only when the lines are the frames. Assumes: the lines are
ends of the frames, and the session does not end with a malformed one. -/
theorem eq_of_deliveredLines (hwell : ∀ frame ∈ frames, frame.WellFormed)
    (hparts : List.Forall₂ EndOf parts (frames.map bytes)) {last : UInt64}
    (hdelivered : deliveredLines last parts = frames.filterMap record?)
    (hends : endOfLines last parts ≠ .error "malformed_audit") : parts = frames.map bytes := by
  induction frames generalizing parts last with
  | nil =>
    cases hparts
    rfl
  | cons frame frames ih =>
    cases hparts with
    | @cons part _ parts _ hend hrest =>
      obtain ⟨hframe, hframes⟩ := List.forall_mem_cons.mp hwell
      rw [filterMap_cons] at hdelivered
      by_cases hpart : part = frame.bytes
      · obtain ⟨hrecords, hend'⟩ := session_cons_whole hframe last parts
        rw [hpart, hrecords] at hdelivered
        rw [hpart, hend'] at hends
        rw [hpart, List.map_cons, ih hframes hrest (List.append_cancel_left hdelivered) hends]
      · exfalso
        cases hrecord : frame.record? with
        | none => exact hends (session_cons_plain hrecord hend hpart last parts).2
        | some entry =>
          obtain rfl := eq_record hrecord
          rw [hrecord, Option.toList_some, List.singleton_append] at hdelivered
          rcases session_cons_part hend hpart last parts with hnone | hskip | ⟨record, hne, hother⟩
          · cases hnone.symm.trans hdelivered
          · -- One record fewer is left to deliver than is sent.
            have hcount := length_deliveredLines_le hframes hrest last
            rw [← hskip, hdelivered, List.length_cons] at hcount
            omega
          · exact hne (List.cons.inj (hother.symm.trans hdelivered)).1

/-- The frames deliver their records, and the session ends with the stream. -/
theorem deliveredLines_map_bytes (hwell : ∀ frame ∈ frames, frame.WellFormed) (last : UInt64) :
    deliveredLines last (frames.map bytes) = frames.filterMap record? ∧
      ∃ next, endOfLines last (frames.map bytes) = .ok next := by
  induction frames generalizing last with
  | nil => exact ⟨rfl, last, rfl⟩
  | cons frame frames ih =>
    obtain ⟨hframe, hframes⟩ := List.forall_mem_cons.mp hwell
    obtain ⟨hrecords, hend⟩ := session_cons_whole hframe last (frames.map bytes)
    obtain ⟨hlater, hnext⟩ := ih hframes (frame.after last)
    rw [List.map_cons, hrecords, hend, filterMap_cons, hlater]
    exact ⟨rfl, hnext⟩

/-- A frame is one line of bytes. -/
theorem isLine_bytes (hwell : frame.WellFormed) : IsLine newline frame.bytes := by
  refine ⟨Utf8.encode frame.line, ?_, ?_⟩
  · intro hmem
    obtain ⟨character, hcharacter, hcode⟩ := Utf8.exists_of_mem_encode (by decide) hmem
    obtain rfl : character = '\n' := Char.toNat_inj.mp hcode
    cases frame with
    | subscribed => exact absurd hcharacter (by decide)
    | replaced => exact absurd hcharacter (by decide)
    | record entry =>
      have hdigits : '\n' ∉ (decimal entry.sequence.toNat).toList := not_mem_decimal _ (by decide)
      rw [line_record] at hcharacter
      simp [hdigits, hwell.1] at hcharacter
  · rw [bytes, Utf8.encode_append]
    rfl

end AuditFrame

/-- A stream of well-formed frames delivers the records that are sent, and does not end with a
malformed one, exactly when every read timeout comes between lines; and these are the streams of which
no byte is lost. Assumes: the reads carry the frames. -/
theorem delivered_iff_timeouts_between_lines {frames : List AuditFrame}
    (hwell : ∀ frame ∈ frames, frame.WellFormed) {reads : List (SocketRead UInt8)}
    (hreads : reads.flatMap SocketRead.bytes = frames.flatMap AuditFrame.bytes) (since : UInt64) :
    ((subscribeBytes since [] reads).1.filterMap AuditEvent.record? =
          frames.filterMap AuditFrame.record? ∧
        (subscribeBytes since [] reads).2 ≠ .error "malformed_audit" ↔
      TimeoutsBetweenLines newline reads) ∧
    (lost newline [] (stream [] reads) = 0 ↔ TimeoutsBetweenLines newline reads) := by
  have hlines : ∀ line ∈ frames.map AuditFrame.bytes, IsLine newline line := by
    intro line hline
    obtain ⟨frame, hframe, rfl⟩ := List.mem_map.mp hline
    exact AuditFrame.isLine_bytes (hwell frame hframe)
  have hitems : (stream [] reads).reduceOption = (frames.map AuditFrame.bytes).flatten := by
    rw [reduceOption_stream, hreads, List.flatMap_def]
  have hparts := forall₂_linesOf newline hlines List.not_mem_nil (List.suffix_refl [])
    ((List.nil_append _).trans hitems)
  refine ⟨?_, lost_eq_zero_iff newline reads⟩
  rw [← lost_eq_zero_iff, ← linesOf_eq_iff_lost_eq_zero newline hlines hitems, subscribeBytes_eq]
  constructor
  · rintro ⟨hdelivered, hends⟩
    exact AuditFrame.eq_of_deliveredLines hwell hparts hdelivered hends
  · intro heq
    rw [heq]
    obtain ⟨hdelivered, next, hnext⟩ := AuditFrame.deliveredLines_map_bytes hwell since
    refine ⟨hdelivered, ?_⟩
    rw [endOfLines] at hnext
    rw [hnext]
    exact nofun

/-- The answer to a subscription, a timeout, and a record in two chunks. -/
def pausedReads : List (SocketRead UInt8) :=
  [.chunk AuditFrame.subscribed.bytes (by decide), .timeout,
    .chunk (Utf8.encode "v1 audit 1|".toList) (by decide), .chunk (Utf8.encode "a\n".toList) (by decide)]

/-- Both are delivered. -/
theorem paused_stream_delivered :
    (subscribeBytes 0 [] pausedReads).1.filterMap AuditEvent.record? = [⟨1, "a"⟩] ∧
      (subscribeBytes 0 [] pausedReads).2 ≠ .error "malformed_audit" := by
  have hwell : ∀ frame ∈ [AuditFrame.subscribed, .record ⟨1, "a"⟩], frame.WellFormed := by
    intro frame hframe
    simp only [List.mem_cons, List.not_mem_nil, or_false] at hframe
    rcases hframe with rfl | rfl
    · exact trivial
    · exact ⟨by decide, by decide, by decide⟩
  have hreads : pausedReads.flatMap SocketRead.bytes =
      [AuditFrame.subscribed, .record ⟨1, "a"⟩].flatMap AuditFrame.bytes := by decide
  have hiff := delivered_iff_timeouts_between_lines hwell hreads 0
  exact hiff.1.mpr (hiff.2.mp (by decide))

/-- A record with a timeout inside its line. -/
def brokenReads : List (SocketRead UInt8) :=
  [.chunk (Utf8.encode "v1 au".toList) (by decide), .timeout,
    .chunk (Utf8.encode "dit 1|a\n".toList) (by decide)]

/-- The first part of the line is lost, and the session ends with what is left of it. -/
theorem broken_stream_malformed :
    ¬ ∀ (frames : List AuditFrame) (reads : List (SocketRead UInt8)) (since : UInt64),
      (∀ frame ∈ frames, frame.WellFormed) →
      reads.flatMap SocketRead.bytes = frames.flatMap AuditFrame.bytes →
      (subscribeBytes since [] reads).1.filterMap AuditEvent.record? =
          frames.filterMap AuditFrame.record? ∧
        (subscribeBytes since [] reads).2 ≠ .error "malformed_audit" ∧
        lost newline [] (stream [] reads) = 0 := by
  intro hall
  have hwell : ∀ frame ∈ [AuditFrame.record ⟨1, "a"⟩], frame.WellFormed := by
    intro frame hframe
    obtain rfl := List.mem_singleton.mp hframe
    exact ⟨by decide, by decide, by decide⟩
  have hreads : brokenReads.flatMap SocketRead.bytes =
      [AuditFrame.record ⟨1, "a"⟩].flatMap AuditFrame.bytes := by decide
  obtain ⟨-, hends, -⟩ := hall _ brokenReads 0 hwell hreads
  have hlines : linesOf newline [] (stream [] brokenReads) = [Utf8.encode "dit 1|a\n".toList] := by
    decide
  have hkind : (AuditClient.desktop.hear ("dit 1|a\n".toList, true)).kind = .malformed := by decide
  rw [subscribeBytes_eq, hlines, session_cons_of_some (Utf8.decode_encode _), hkind] at hends
  exact hends rfl

end InterFire
