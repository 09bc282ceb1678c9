import Mathlib.Data.List.Forall2
import Mathlib.Data.List.ReduceOption
import Mathlib.Data.List.TakeWhile

/-!
# Reading lines from a socket

A buffered reader takes what the socket delivers, chunk after chunk, and returns it line by line. A
read of the socket may time out instead; what the reader has put into the line by then is lost when
the caller starts the next line with an empty one.

`readLine_cases` says what one line takes from the stream of bytes and timeouts. `linesOf` are the
lines of such a stream, whatever the chunks. They are ends of the lines that were sent
(`forall₂_linesOf`), and they are these lines exactly when nothing was lost
(`linesOf_eq_iff_lost_eq_zero`), which is when every timeout finds the reader at the start of a line
(`lost_eq_zero_iff`).
-/

set_option autoImplicit false
set_option relaxedAutoImplicit false

universe u

namespace LineReader

/-- A read of a socket that is open: some bytes, or a timeout. -/
inductive SocketRead (α : Type u)
  | chunk (bytes : List α) (nonempty : bytes ≠ [])
  | timeout

/-- What a reader returns for a line: what it has put into the line, with the state it leaves. -/
inductive LineRead (α : Type u)
  | line (bytes buffer : List α) (reads : List (SocketRead α))
  | timedOut (bytes buffer : List α) (reads : List (SocketRead α))

variable {α : Type u}

namespace SocketRead

/-- The bytes of a read, or the timeout. -/
def items : SocketRead α → List (Option α)
  | chunk bytes _ => bytes.map some
  | timeout => [none]

/-- The bytes of a read. -/
def bytes : SocketRead α → List α
  | chunk bytes _ => bytes
  | timeout => []

end SocketRead

/-- What is left to read: the bytes of the buffer and then those of the socket, with its timeouts. -/
def stream (buffer : List α) (reads : List (SocketRead α)) : List (Option α) :=
  buffer.map some ++ reads.flatMap SocketRead.items

theorem stream_nil_cons_timeout (reads : List (SocketRead α)) :
    stream [] (.timeout :: reads) = none :: stream [] reads := rfl

theorem stream_nil_cons_chunk (bytes : List α) (nonempty : bytes ≠ [])
    (reads : List (SocketRead α)) :
    stream [] (.chunk bytes nonempty :: reads) = stream bytes reads := rfl

theorem stream_eq_append (buffer : List α) (reads : List (SocketRead α)) :
    stream buffer reads = buffer.map some ++ stream [] reads := rfl

variable [DecidableEq α] (newline : α)

/-- Append to a line up to the newline, which is searched in the buffer and then in what the socket
delivers. At the end of the stream the line is what there is. -/
def readLine (line buffer : List α) (reads : List (SocketRead α)) : LineRead α :=
  if newline ∈ buffer then
    .line (line ++ buffer.takeWhile (· ≠ newline) ++ [newline])
      (buffer.dropWhile (· ≠ newline)).tail reads
  else
    match reads with
    | [] => .line (line ++ buffer) [] []
    | .timeout :: rest => .timedOut (line ++ buffer) [] rest
    | .chunk bytes _ :: rest => readLine (line ++ buffer) bytes rest

theorem readLine_of_mem (line : List α) {buffer : List α} (reads : List (SocketRead α))
    (hmem : newline ∈ buffer) :
    ∃ body after, readLine newline line buffer reads = .line (line ++ body ++ [newline]) after reads ∧
      newline ∉ body ∧
      stream buffer reads = body.map some ++ some newline :: stream after reads := by
  refine ⟨buffer.takeWhile (· ≠ newline), (buffer.dropWhile (· ≠ newline)).tail, ?_, ?_, ?_⟩
  · rw [readLine.eq_def, if_pos hmem]
  · intro hbody
    have hne := List.mem_takeWhile_imp hbody
    simp at hne
  · have hsplit : buffer = buffer.takeWhile (· ≠ newline) ++
        newline :: (buffer.dropWhile (· ≠ newline)).tail := by
      induction buffer with
      | nil => cases hmem
      | cons first rest ih =>
        by_cases hfirst : first = newline
        · simp [hfirst]
        · have hrest : newline ∈ rest := by
            rcases List.mem_cons.mp hmem with rfl | hrest
            · exact absurd rfl hfirst
            · exact hrest
          rw [List.takeWhile_cons_of_pos (by simpa using hfirst),
            List.dropWhile_cons_of_pos (by simpa using hfirst), List.cons_append, ← ih hrest]
    conv_lhs => rw [stream_eq_append, hsplit]
    rw [List.map_append, List.map_cons, List.append_assoc, List.cons_append, ← stream_eq_append]

/-- What one line takes from the stream: the bytes up to a newline, all that is left, or the bytes up
to a timeout. -/
theorem readLine_cases (line buffer : List α) (reads : List (SocketRead α)) :
    (∃ body after rest, readLine newline line buffer reads =
        .line (line ++ body ++ [newline]) after rest ∧ newline ∉ body ∧
        stream buffer reads = body.map some ++ some newline :: stream after rest) ∨
    (∃ body, readLine newline line buffer reads = .line (line ++ body) [] [] ∧ newline ∉ body ∧
        stream buffer reads = body.map some) ∨
    (∃ body after rest, readLine newline line buffer reads = .timedOut (line ++ body) after rest ∧
        newline ∉ body ∧ stream buffer reads = body.map some ++ none :: stream after rest) := by
  induction reads generalizing line buffer with
  | nil =>
    by_cases hmem : newline ∈ buffer
    · obtain ⟨body, after, hread, hbody, hstream⟩ := readLine_of_mem newline line [] hmem
      exact .inl ⟨body, after, [], hread, hbody, hstream⟩
    · refine .inr (.inl ⟨buffer, ?_, hmem, ?_⟩)
      · rw [readLine, if_neg hmem]
      · simp [stream]
  | cons read rest ih =>
    by_cases hmem : newline ∈ buffer
    · obtain ⟨body, after, hread, hbody, hstream⟩ := readLine_of_mem newline line (read :: rest) hmem
      exact .inl ⟨body, after, read :: rest, hread, hbody, hstream⟩
    · cases read with
      | timeout =>
        refine .inr (.inr ⟨buffer, [], rest, ?_, hmem, rfl⟩)
        rw [readLine, if_neg hmem]
      | chunk bytes nonempty =>
        -- The buffer goes into the line, and the search goes on in the chunk.
        have hread : readLine newline line buffer (.chunk bytes nonempty :: rest) =
            readLine newline (line ++ buffer) bytes rest := by
          rw [readLine, if_neg hmem]
        have hstream : stream buffer (.chunk bytes nonempty :: rest) =
            buffer.map some ++ stream bytes rest := by
          rw [stream_eq_append, stream_nil_cons_chunk]
        rw [hread, hstream]
        rcases ih (line ++ buffer) bytes with
          ⟨body, after, left, hline, hbody, htaken⟩ | ⟨body, hline, hbody, htaken⟩ |
            ⟨body, after, left, hline, hbody, htaken⟩
        · refine .inl ⟨buffer ++ body, after, left, ?_, ?_, ?_⟩
          · rw [hline, List.append_assoc line]
          · simp [hmem, hbody]
          · rw [htaken, List.map_append, List.append_assoc]
        · refine .inr (.inl ⟨buffer ++ body, ?_, ?_, ?_⟩)
          · rw [hline, List.append_assoc line]
          · simp [hmem, hbody]
          · rw [htaken, List.map_append]
        · refine .inr (.inr ⟨buffer ++ body, after, left, ?_, ?_, ?_⟩)
          · rw [hline, List.append_assoc line]
          · simp [hmem, hbody]
          · rw [htaken, List.map_append, List.append_assoc]

/-! ### The lines of a stream -/

/-- The lines of a stream after the part of one. A timeout drops what has been read of a line, and the
end of the stream ends a line. -/
def linesOf : List α → List (Option α) → List (List α)
  | line, [] => if line = [] then [] else [line]
  | _, none :: rest => linesOf [] rest
  | line, some byte :: rest =>
    if byte = newline then (line ++ [newline]) :: linesOf [] rest else linesOf (line ++ [byte]) rest

/-- The bytes of a stream that are dropped at timeouts. -/
def lost : List α → List (Option α) → ℕ
  | _, [] => 0
  | line, none :: rest => line.length + lost [] rest
  | line, some byte :: rest => if byte = newline then lost [] rest else lost (line ++ [byte]) rest

/-- Assumes: no newline among the bytes. -/
theorem linesOf_append {body : List α} (hbody : newline ∉ body) (line : List α)
    (rest : List (Option α)) :
    linesOf newline line (body.map some ++ rest) = linesOf newline (line ++ body) rest := by
  induction body generalizing line with
  | nil => rw [List.append_nil, List.map_nil, List.nil_append]
  | cons byte body ih =>
    have hbyte : byte ≠ newline := fun heq ↦ hbody (heq ▸ List.mem_cons_self)
    rw [List.map_cons, List.cons_append, linesOf, if_neg hbyte,
      ih fun hmem ↦ hbody (List.mem_cons_of_mem byte hmem), List.append_assoc, List.singleton_append]

section Step

variable {newline} {buffer after bytes : List α} {reads rest : List (SocketRead α)}

/-- A line takes something from the stream. Assumes: it is not empty. -/
theorem length_stream_lt (hread : readLine newline [] buffer reads = .line bytes after rest)
    (hbytes : bytes ≠ []) : (stream after rest).length < (stream buffer reads).length := by
  rcases readLine_cases newline [] buffer reads with
    ⟨body, after', rest', hline, -, hstream⟩ | ⟨body, hline, -, hstream⟩ |
      ⟨body, after', rest', hline, -, -⟩
  · obtain ⟨-, rfl, rfl⟩ := LineRead.line.inj (hread.symm.trans hline)
    rw [hstream, List.length_append, List.length_cons]
    omega
  · obtain ⟨rfl, rfl, rfl⟩ := LineRead.line.inj (hread.symm.trans hline)
    rw [hstream, List.length_map]
    exact List.length_pos_iff.mpr hbytes
  · cases hread.symm.trans hline

/-- A timeout takes something from the stream. -/
theorem length_stream_lt_of_timedOut
    (hread : readLine newline [] buffer reads = .timedOut bytes after rest) :
    (stream after rest).length < (stream buffer reads).length := by
  rcases readLine_cases newline [] buffer reads with
    ⟨body, after', rest', hline, -, -⟩ | ⟨body, hline, -, -⟩ |
      ⟨body, after', rest', hline, -, hstream⟩
  · cases hread.symm.trans hline
  · cases hread.symm.trans hline
  · obtain ⟨-, rfl, rfl⟩ := LineRead.timedOut.inj (hread.symm.trans hline)
    rw [hstream, List.length_append, List.length_cons]
    omega

/-- The line that is read is the first one of the stream, or the stream has ended. -/
theorem linesOf_of_line (hread : readLine newline [] buffer reads = .line bytes after rest) :
    linesOf newline [] (stream buffer reads) =
      if bytes = [] then [] else bytes :: linesOf newline [] (stream after rest) := by
  rcases readLine_cases newline [] buffer reads with
    ⟨body, after', rest', hline, hbody, hstream⟩ | ⟨body, hline, hbody, hstream⟩ |
      ⟨body, after', rest', hline, -, -⟩
  · obtain ⟨rfl, rfl, rfl⟩ := LineRead.line.inj (hread.symm.trans hline)
    rw [hstream, linesOf_append newline hbody, linesOf, if_pos rfl, if_neg (by simp)]
  · obtain ⟨hbytes, rfl, rfl⟩ := LineRead.line.inj (hread.symm.trans hline)
    rw [hstream, ← List.append_nil (body.map some), linesOf_append newline hbody, ← hbytes]
    rfl
  · cases hread.symm.trans hline

/-- What a timeout has read of a line is no part of a line. -/
theorem linesOf_of_timedOut
    (hread : readLine newline [] buffer reads = .timedOut bytes after rest) :
    linesOf newline [] (stream buffer reads) = linesOf newline [] (stream after rest) := by
  rcases readLine_cases newline [] buffer reads with
    ⟨body, after', rest', hline, -, -⟩ | ⟨body, hline, -, -⟩ |
      ⟨body, after', rest', hline, hbody, hstream⟩
  · cases hread.symm.trans hline
  · cases hread.symm.trans hline
  · obtain ⟨-, rfl, rfl⟩ := LineRead.timedOut.inj (hread.symm.trans hline)
    rw [hstream, linesOf_append newline hbody, linesOf]

end Step

/-- The bytes of a stream are in its lines, or lost. -/
theorem length_linesOf (line : List α) (items : List (Option α)) :
    (linesOf newline line items).flatten.length + lost newline line items =
      line.length + items.reduceOption.length := by
  induction items generalizing line with
  | nil =>
    rw [linesOf, lost]
    split_ifs with hline
    · simp [hline]
    · simp
  | cons item rest ih =>
    cases item with
    | none =>
      have hrest := ih []
      rw [linesOf, lost, List.reduceOption_cons_of_none]
      rw [List.length_nil] at hrest
      omega
    | some byte =>
      rw [linesOf, lost, List.reduceOption_cons_of_some, List.length_cons]
      split_ifs with hbyte
      · have hrest := ih []
        rw [List.flatten_cons, List.length_append, List.length_append, List.length_singleton]
        rw [List.length_nil] at hrest
        omega
      · have hrest := ih (line ++ [byte])
        rw [List.length_append, List.length_singleton] at hrest
        omega

/-! ### The lines that were sent -/

/-- A line with its newline. -/
def IsLine (line : List α) : Prop := ∃ body, newline ∉ body ∧ line = body ++ [newline]

/-- The end of a line, and not an empty one. -/
def EndOf (part line : List α) : Prop := part ≠ [] ∧ part <:+ line

omit [DecidableEq α] in
theorem suffix_concat {part whole : List α} (byte : α) (hsuffix : part <:+ whole) :
    part ++ [byte] <:+ whole ++ [byte] := by
  obtain ⟨start, rfl⟩ := hsuffix
  exact ⟨start, by rw [List.append_assoc]⟩

/-- The first newline of a list of lines ends the first line. Assumes: no newline is before it. -/
theorem eq_cons_of_flatten {lines : List (List α)} (hlines : ∀ line ∈ lines, IsLine newline line)
    {body rest : List α} (hbody : newline ∉ body)
    (hflatten : body ++ newline :: rest = lines.flatten) :
    ∃ others, lines = (body ++ [newline]) :: others ∧ rest = others.flatten := by
  cases lines with
  | nil => simp at hflatten
  | cons first others =>
    obtain ⟨sent, hsent, rfl⟩ := hlines first List.mem_cons_self
    rw [List.flatten_cons, List.append_assoc, List.singleton_append] at hflatten
    have hsame : body = sent := by
      have htake := congrArg (List.takeWhile (· ≠ newline)) hflatten
      have hsolid : ∀ part : List α, newline ∉ part → ∀ tail : List α,
          (part ++ newline :: tail).takeWhile (· ≠ newline) = part := by
        intro part hpart tail
        rw [List.takeWhile_append_of_pos, List.takeWhile_cons_of_neg (by simp), List.append_nil]
        intro byte hbyte
        have hne : byte ≠ newline := fun heq ↦ hpart (heq ▸ hbyte)
        simpa using hne
      rwa [hsolid body hbody, hsolid sent hsent] at htake
    subst hsame
    exact ⟨others, rfl, (List.cons.inj (List.append_cancel_left hflatten)).2⟩

/-- The lines of a stream are ends of the lines that were sent. Assumes: the stream carries the lines
after a part of the first one, of which the reader has an end. -/
theorem forall₂_linesOf {lines : List (List α)} (hlines : ∀ line ∈ lines, IsLine newline line)
    {read line : List α} {items : List (Option α)} (hread : newline ∉ read) (hline : line <:+ read)
    (hitems : read ++ items.reduceOption = lines.flatten) :
    List.Forall₂ EndOf (linesOf newline line items) lines := by
  induction items generalizing lines read line with
  | nil =>
    rw [List.reduceOption_nil, List.append_nil] at hitems
    cases lines with
    | nil =>
      rw [List.flatten_nil] at hitems
      rw [hitems, List.suffix_nil] at hline
      rw [linesOf, if_pos hline]
      exact .nil
    | cons first others =>
      obtain ⟨sent, -, rfl⟩ := hlines first List.mem_cons_self
      exact absurd (by simp [hitems]) hread
  | cons item rest ih =>
    cases item with
    | none =>
      rw [List.reduceOption_cons_of_none] at hitems
      exact ih hlines hread List.nil_suffix hitems
    | some byte =>
      rw [List.reduceOption_cons_of_some] at hitems
      rw [linesOf]
      split_ifs with hbyte
      · subst hbyte
        obtain ⟨others, rfl, hrest⟩ := eq_cons_of_flatten byte hlines hread hitems
        exact .cons ⟨by simp, suffix_concat byte hline⟩
          (ih (fun other hother ↦ hlines other (List.mem_cons_of_mem _ hother))
            List.not_mem_nil (List.suffix_refl []) (by rw [List.nil_append, hrest]))
      · have hnext : newline ∉ read ++ [byte] := by
          rw [List.mem_append, List.mem_singleton, not_or]
          exact ⟨hread, fun heq ↦ hbyte heq.symm⟩
        refine ih hlines hnext (suffix_concat byte hline) ?_
        rw [List.append_assoc, List.singleton_append, hitems]

omit [DecidableEq α] in
/-- Ends of lines that are as long as the lines are the lines. -/
theorem eq_of_length_flatten {parts lines : List (List α)} (hparts : List.Forall₂ EndOf parts lines)
    (hlength : lines.flatten.length ≤ parts.flatten.length) : parts = lines := by
  induction hparts with
  | nil => rfl
  | @cons part line parts lines hpart hrest ih =>
    have hle := hpart.2.length_le
    have hothers : parts.flatten.length ≤ lines.flatten.length := by
      clear ih hlength
      induction hrest with
      | nil => exact le_rfl
      | cons hfirst _ ih =>
        have hfirst := hfirst.2.length_le
        rw [List.flatten_cons, List.flatten_cons, List.length_append, List.length_append]
        omega
    rw [List.flatten_cons, List.flatten_cons, List.length_append, List.length_append] at hlength
    rw [hpart.2.eq_of_length_le (by omega), ih (by omega)]

/-- The lines that were sent are read exactly when nothing is lost. -/
theorem linesOf_eq_iff_lost_eq_zero {lines : List (List α)}
    (hlines : ∀ line ∈ lines, IsLine newline line) {items : List (Option α)}
    (hitems : items.reduceOption = lines.flatten) :
    linesOf newline [] items = lines ↔ lost newline [] items = 0 := by
  have hlength := length_linesOf newline [] items
  rw [hitems, List.length_nil, Nat.zero_add] at hlength
  constructor
  · intro heq
    rw [heq] at hlength
    omega
  · intro hzero
    exact eq_of_length_flatten (forall₂_linesOf newline hlines List.not_mem_nil
      (List.suffix_refl []) hitems) (by omega)

/-! ### Timeouts inside a line -/

/-- The bytes end where a line starts. -/
def AtLineStart (bytes : List α) : Prop := bytes = [] ∨ bytes.getLast? = some newline

/-- Every timeout comes where a line starts. -/
def TimeoutsBetweenLines (reads : List (SocketRead α)) : Prop :=
  ∀ before after, reads = before ++ .timeout :: after →
    AtLineStart newline (before.flatMap SocketRead.bytes)

/-- The part of a line at which bytes leave the reader. -/
def lineAfter : List α → List α → List α
  | line, [] => line
  | line, byte :: rest => if byte = newline then lineAfter [] rest else lineAfter (line ++ [byte]) rest

theorem lost_append (line bytes : List α) (rest : List (Option α)) :
    lost newline line (bytes.map some ++ rest) = lost newline (lineAfter newline line bytes) rest := by
  induction bytes generalizing line with
  | nil => rfl
  | cons byte bytes ih =>
    rw [List.map_cons, List.cons_append, lost, lineAfter]
    split_ifs
    · exact ih []
    · exact ih (line ++ [byte])

theorem lineAfter_append (line first second : List α) :
    lineAfter newline line (first ++ second) =
      lineAfter newline (lineAfter newline line first) second := by
  induction first generalizing line with
  | nil => rfl
  | cons byte rest ih =>
    rw [List.cons_append, lineAfter, lineAfter]
    split_ifs
    · exact ih []
    · exact ih (line ++ [byte])

/-- The reader has no part of a line exactly where a line starts. -/
theorem lineAfter_eq_nil_iff (bytes : List α) :
    lineAfter newline [] bytes = [] ↔ AtLineStart newline bytes := by
  rcases List.eq_nil_or_concat bytes with rfl | ⟨rest, last, rfl⟩
  · exact iff_of_true rfl (.inl rfl)
  · rw [List.concat_eq_append, AtLineStart, lineAfter_append, lineAfter]
    split_ifs with hlast
    · exact iff_of_true rfl (.inr (by simp [hlast]))
    · refine iff_of_false (by simp [lineAfter]) ?_
      simp [hlast]

/-- What is lost after some bytes is nothing exactly when every timeout finds the start of a line. -/
theorem lost_stream_eq_zero_iff (bytes : List α) (reads : List (SocketRead α)) :
    lost newline (lineAfter newline [] bytes) (stream [] reads) = 0 ↔
      ∀ before after, reads = before ++ .timeout :: after →
        AtLineStart newline (bytes ++ before.flatMap SocketRead.bytes) := by
  induction reads generalizing bytes with
  | nil => exact iff_of_true rfl (by simp)
  | cons read rest ih =>
    have hcons : (∀ before after, read :: rest = before ++ .timeout :: after →
        AtLineStart newline (bytes ++ before.flatMap SocketRead.bytes)) ↔
          (read = .timeout → AtLineStart newline bytes) ∧
          ∀ before after, rest = before ++ .timeout :: after →
            AtLineStart newline ((bytes ++ read.bytes) ++ before.flatMap SocketRead.bytes) := by
      constructor
      · intro hall
        refine ⟨fun htimeout ↦ ?_, fun before after heq ↦ ?_⟩
        · simpa using hall [] rest (by rw [htimeout]; rfl)
        · simpa using hall (read :: before) after (by rw [heq]; rfl)
      · rintro ⟨hfirst, hrest⟩ before after heq
        cases before with
        | nil =>
          obtain ⟨rfl, -⟩ := List.cons.inj heq
          simpa using hfirst rfl
        | cons head before =>
          obtain ⟨rfl, hafter⟩ := List.cons.inj heq
          simpa using hrest before after hafter
    rw [hcons]
    cases read with
    | timeout =>
      have hbytes : bytes ++ (SocketRead.timeout : SocketRead α).bytes = bytes := List.append_nil bytes
      rw [stream_nil_cons_timeout, lost, Nat.add_eq_zero_iff, List.length_eq_zero_iff,
        lineAfter_eq_nil_iff, hbytes]
      -- Where a line starts there is no part of one, and the timeout changes nothing.
      have hiff : AtLineStart newline bytes → (lost newline [] (stream [] rest) = 0 ↔
          ∀ before after, rest = before ++ .timeout :: after →
            AtLineStart newline (bytes ++ before.flatMap SocketRead.bytes)) := by
        intro hstart
        rw [← ih, (lineAfter_eq_nil_iff newline bytes).mpr hstart]
      constructor
      · rintro ⟨hstart, hzero⟩
        exact ⟨fun _ ↦ hstart, (hiff hstart).mp hzero⟩
      · rintro ⟨hstart, hrest⟩
        exact ⟨hstart rfl, (hiff (hstart rfl)).mpr hrest⟩
    | chunk chunk nonempty =>
      rw [stream_nil_cons_chunk, stream_eq_append, lost_append, ← lineAfter_append, ih]
      simp [SocketRead.bytes]

/-- Nothing is lost exactly when every timeout comes between lines. -/
theorem lost_eq_zero_iff (reads : List (SocketRead α)) :
    lost newline [] (stream [] reads) = 0 ↔ TimeoutsBetweenLines newline reads :=
  lost_stream_eq_zero_iff newline [] reads

/-! ### Parts of a stream -/

/-- The lines of a stream that begins with some bytes: the lines that end among them, and those of the
rest, after the part of a line that the bytes leave. -/
theorem exists_whole_linesOf (line bytes : List α) :
    ∃ whole, ∀ rest, linesOf newline line (bytes.map some ++ rest) =
      whole ++ linesOf newline (lineAfter newline line bytes) rest := by
  induction bytes generalizing line with
  | nil => exact ⟨[], fun rest ↦ rfl⟩
  | cons byte bytes ih =>
    by_cases hbyte : byte = newline
    · obtain ⟨whole, hwhole⟩ := ih []
      refine ⟨(line ++ [newline]) :: whole, fun rest ↦ ?_⟩
      rw [List.map_cons, List.cons_append, linesOf, if_pos hbyte, hwhole, lineAfter, if_pos hbyte,
        List.cons_append]
    · obtain ⟨whole, hwhole⟩ := ih (line ++ [byte])
      refine ⟨whole, fun rest ↦ ?_⟩
      rw [List.map_cons, List.cons_append, linesOf, if_neg hbyte, hwhole, lineAfter, if_neg hbyte]

/-- A line is made of what the stream delivers. Assumes: it is a line of the stream. -/
theorem mem_of_mem_linesOf {line : List α} {items : List (Option α)} {bytes : List α}
    (hline : bytes ∈ linesOf newline line items) {byte : α} (hbyte : byte ∈ bytes) :
    byte ∈ line ∨ some byte ∈ items := by
  fun_induction linesOf newline line items with
  | case1 => cases hline
  | case2 line hne =>
    obtain rfl := List.mem_singleton.mp hline
    exact .inl hbyte
  | case3 line rest ih =>
    rcases ih hline with hnil | hrest
    · cases hnil
    · exact .inr (List.mem_cons_of_mem _ hrest)
  | case4 line rest ih =>
    rcases List.mem_cons.mp hline with rfl | hrest
    · rcases List.mem_append.mp hbyte with hpart | hend
      · exact .inl hpart
      · exact .inr (List.mem_singleton.mp hend ▸ List.mem_cons_self)
    · rcases ih hrest with hnil | hlater
      · cases hnil
      · exact .inr (List.mem_cons_of_mem _ hlater)
  | case5 line first rest hne ih =>
    rcases ih hline with hpart | hrest
    · rcases List.mem_append.mp hpart with hbefore | hfirst
      · exact .inl hbefore
      · exact .inr (List.mem_singleton.mp hfirst ▸ List.mem_cons_self)
    · exact .inr (List.mem_cons_of_mem _ hrest)

/-- Bytes without a newline are added to the part of a line. Assumes: no newline among them. -/
theorem lineAfter_of_notMem (line : List α) {bytes : List α} (hbytes : newline ∉ bytes) :
    lineAfter newline line bytes = line ++ bytes := by
  induction bytes generalizing line with
  | nil => rw [lineAfter, List.append_nil]
  | cons byte rest ih =>
    have hbyte : byte ≠ newline := fun heq ↦ hbytes (heq ▸ List.mem_cons_self)
    rw [lineAfter, if_neg hbyte, ih _ fun hmem ↦ hbytes (List.mem_cons_of_mem byte hmem),
      List.append_assoc, List.singleton_append]

/-- A whole line after the part of one. Assumes: the line. -/
theorem linesOf_of_isLine (line : List α) {whole : List α} (hwhole : IsLine newline whole) :
    linesOf newline line (whole.map some) = [line ++ whole] := by
  obtain ⟨body, hbody, rfl⟩ := hwhole
  rw [List.map_append, linesOf_append newline hbody, List.map_singleton, linesOf, if_pos rfl, linesOf,
    if_pos rfl, List.append_assoc]

/-- A start of a line is added to the part of one, unless it is the whole line. Assumes: the line. -/
theorem lineAfter_of_prefix (line : List α) {whole part : List α} (hwhole : IsLine newline whole)
    (hpart : part <+: whole) :
    (part = whole ∧ lineAfter newline line part = []) ∨
      (part ≠ whole ∧ lineAfter newline line part = line ++ part) := by
  obtain ⟨body, hbody, rfl⟩ := hwhole
  rcases List.prefix_concat_iff.mp hpart with rfl | hinner
  · refine .inl ⟨rfl, ?_⟩
    rw [lineAfter_append, lineAfter, if_pos rfl]
    rfl
  · have hnot : newline ∉ part := fun hmem ↦ hbody (hinner.subset hmem)
    refine .inr ⟨?_, lineAfter_of_notMem newline line hnot⟩
    rintro rfl
    exact hnot (List.mem_append_right _ (List.mem_singleton_self _))

omit [DecidableEq α] in
theorem reduceOption_stream (reads : List (SocketRead α)) :
    (stream [] reads).reduceOption = reads.flatMap SocketRead.bytes := by
  induction reads with
  | nil => rfl
  | cons read rest ih =>
    cases read with
    | timeout =>
      rw [stream_nil_cons_timeout, List.reduceOption_cons_of_none, ih]
      rfl
    | chunk bytes nonempty =>
      have hbytes : (bytes.map some).reduceOption = bytes := by
        simp [List.reduceOption]
      rw [stream_nil_cons_chunk, stream_eq_append, List.reduceOption_append, hbytes, ih]
      rfl

end LineReader
