import InterFire.PromptFrames
import InterFire.Rows

/-!
# Process and statistics lists survive the wire

The writers of process and statistics rows escape what a program controls, so that the readers of
`crates/interfire-proto` find exactly the rows that were written: `process_stats_lists_read_back`.

`unescapeField_escapeField` is the inner round trip. The three replacements of `escape_field` write
the text character by character (`toList_escapeField`), and each replacement of `unescape_field`
reads one of the three tokens and passes over the other two, since they differ in their second
character and no other character starts a token.

`parseListFrame_rows` is the outer one: a frame is read as its payload, and a payload as its
rows.
-/

set_option autoImplicit false
set_option relaxedAutoImplicit false

namespace InterFire

/-! ### Escaped fields -/

/-- What `escape_field` writes for a character. -/
def escapeToken : Char → List Char
  | '%' => ['%', '2', '5']
  | '|' => ['%', '7', 'C']
  | ';' => ['%', '3', 'B']
  | other => [other]

theorem escapeToken_of_ne {character : Char} (hpercent : character ≠ '%') (hbar : character ≠ '|')
    (hsemicolon : character ≠ ';') : escapeToken character = [character] := by
  unfold escapeToken
  split
  · exact absurd rfl hpercent
  · exact absurd rfl hbar
  · exact absurd rfl hsemicolon
  · rfl

/-- The three replacements write the text character by character. -/
theorem toList_escapeField (value : String) :
    (escapeField value).toList = value.toList.flatMap escapeToken := by
  have htoken : ∀ character, Text.replaceChar ';' ['%', '3', 'B']
      (Text.replaceChar '|' ['%', '7', 'C'] (if character = '%' then ['%', '2', '5']
        else [character])) = escapeToken character := by
    intro character
    by_cases hpercent : character = '%'
    · subst hpercent
      rfl
    by_cases hbar : character = '|'
    · subst hbar
      rfl
    by_cases hsemicolon : character = ';'
    · subst hsemicolon
      rfl
    have hkept : Text.replaceChar '|' ['%', '7', 'C'] [character] = [character] :=
      Text.replaceChar_of_not_mem (by simpa using Ne.symm hbar) _
    rw [escapeToken_of_ne hpercent hbar hsemicolon, if_neg hpercent, hkept,
      Text.replaceChar_of_not_mem (by simpa using Ne.symm hsemicolon)]
  rw [escapeField, String.toList_ofList, Text.replaceChar.eq_def '%', Text.replaceChar_flatMap,
    Text.replaceChar_flatMap]
  exact congrArg (fun token ↦ value.toList.flatMap token) (funext htoken)

/-- A token whose second character is not that of the pattern is passed over. Assumes: it is
another one, and the last two characters of the token are no percent signs. -/
theorem replaceAll_token {second third other last : Char} (hother : other ≠ second)
    (hpercent : other ≠ '%') (hlast : last ≠ '%') (replacement rest : List Char) :
    Text.replaceAll ['%', second, third] replacement (['%', other, last] ++ rest) =
      ['%', other, last] ++ Text.replaceAll ['%', second, third] replacement rest := by
  have hnone : ¬ ['%', second, third] <+: '%' :: other :: last :: rest := by
    rw [List.cons_prefix_cons, List.cons_prefix_cons]
    exact fun hbegins ↦ hother hbegins.2.1.symm
  simp only [List.cons_append, List.nil_append]
  rw [Text.replaceAll_cons hnone, Text.replaceAll_cons_of_ne hpercent,
    Text.replaceAll_cons_of_ne hlast]

/-- The token of a character, unless the character is among those that are read already. -/
def escapeTokenBut (known : List Char) (character : Char) : List Char :=
  if character ∈ known then [character] else escapeToken character

/-- Reading the token of one more character back. Assumes: the character has a token, which is not
read already, and neither is that of the percent sign. -/
theorem replaceAll_escapeTokenBut {known : List Char} {target : Char}
    (htarget : target ∈ ['%', '|', ';']) (hfresh : target ∉ known) (hpercent : '%' ∉ known)
    (text : List Char) :
    Text.replaceAll (escapeToken target) [target] (text.flatMap (escapeTokenBut known)) =
      text.flatMap (escapeTokenBut (target :: known)) := by
  have hne : escapeToken target ≠ [] := by
    unfold escapeToken
    split <;> simp
  obtain ⟨second, third, htoken⟩ : ∃ second third, escapeToken target = ['%', second, third] := by
    simp only [List.mem_cons, List.not_mem_nil, or_false] at htarget
    rcases htarget with rfl | rfl | rfl <;> exact ⟨_, _, rfl⟩
  refine Text.replaceAll_flatMap (fun character rest ↦ ?_) text
  -- A character that stands for itself is kept, unless it is the percent sign.
  have hkept : character ≠ '%' → Text.replaceAll (escapeToken target) [target]
      ([character] ++ rest) =
        [character] ++ Text.replaceAll (escapeToken target) [target] rest := by
    intro hcharacter
    rw [htoken]
    exact Text.replaceAll_cons_of_ne hcharacter _ _ _
  by_cases hknown : character ∈ known
  · rw [escapeTokenBut, escapeTokenBut, if_pos hknown, if_pos (.tail target hknown)]
    exact hkept fun heq ↦ hpercent (heq ▸ hknown)
  by_cases hcharacter : character = target
  · subst hcharacter
    rw [escapeTokenBut, escapeTokenBut, if_neg hknown, if_pos List.mem_cons_self]
    exact Text.replaceAll_append hne _ _
  · have hlater : character ∉ target :: known := by simp [hcharacter, hknown]
    rw [escapeTokenBut, escapeTokenBut, if_neg hknown, if_neg hlater]
    by_cases hspecial : character ∈ ['%', '|', ';']
    · simp only [List.mem_cons, List.not_mem_nil, or_false] at htarget hspecial
      rcases htarget with rfl | rfl | rfl <;> rcases hspecial with rfl | rfl | rfl
      -- The diagonal is the token itself; the other tokens differ in their second character.
      all_goals first
        | exact absurd rfl hcharacter
        | exact replaceAll_token (by decide) (by decide) (by decide) _ _
    · simp only [List.mem_cons, List.not_mem_nil, or_false, not_or] at hspecial
      rw [escapeToken_of_ne hspecial.1 hspecial.2.1 hspecial.2.2]
      exact hkept hspecial.1

/-- `unescape_field` undoes `escape_field` on every text. -/
theorem unescapeField_escapeField (value : String) : unescapeField (escapeField value) = value := by
  have hnone : escapeTokenBut [] = escapeToken := by
    funext character
    rw [escapeTokenBut, if_neg List.not_mem_nil]
  have hsemicolon := @replaceAll_escapeTokenBut [] ';' (by decide) (by decide) (by decide)
    value.toList
  have hbar := @replaceAll_escapeTokenBut [';'] '|' (by decide) (by decide) (by decide)
    value.toList
  have hpercent := @replaceAll_escapeTokenBut ['|', ';'] '%' (by decide) (by decide) (by decide)
    value.toList
  have hall : escapeTokenBut ['%', '|', ';'] = fun character ↦ [character] := by
    funext character
    unfold escapeTokenBut
    split_ifs with hspecial
    · rfl
    · simp only [List.mem_cons, List.not_mem_nil, or_false, not_or] at hspecial
      exact escapeToken_of_ne hspecial.1 hspecial.2.1 hspecial.2.2
  rw [hnone] at hsemicolon
  rw [hall, List.flatMap_singleton'] at hpercent
  rw [unescapeField, toList_escapeField]
  exact (congrArg String.ofList ((congrArg _ ((congrArg _ hsemicolon).trans hbar)).trans
    hpercent)).trans String.ofList_toList

/-- An escaped field contains neither separator, and no character besides those of the field and of
the tokens. Assumes: it is a character of the escaped field. -/
theorem mem_escapeField {value : String} {character : Char}
    (hmem : character ∈ (escapeField value).toList) :
    character ≠ '|' ∧ character ≠ ';' ∧
      (character ∈ value.toList ∨ character ∈ ['%', '2', '5', '7', 'C', '3', 'B']) := by
  rw [toList_escapeField] at hmem
  obtain ⟨written, hwritten, htoken⟩ := List.mem_flatMap.mp hmem
  by_cases hspecial : written ∈ ['%', '|', ';']
  · have hcodes : character ∈ ['%', '2', '5', '7', 'C', '3', 'B'] := by
      simp only [List.mem_cons, List.not_mem_nil, or_false] at hspecial
      rcases hspecial with rfl | rfl | rfl <;> simp only [escapeToken] at htoken <;>
        simp only [List.mem_cons, List.not_mem_nil, or_false] at htoken ⊢ <;> tauto
    refine ⟨?_, ?_, .inr hcodes⟩ <;> rintro rfl <;> exact absurd hcodes (by decide)
  · simp only [List.mem_cons, List.not_mem_nil, or_false, not_or] at hspecial
    rw [escapeToken_of_ne hspecial.1 hspecial.2.1 hspecial.2.2, List.mem_singleton] at htoken
    subst htoken
    exact ⟨hspecial.2.1, hspecial.2.2, .inl hwritten⟩

/-! ### Payloads and frames -/

/-- The line of a list. -/
def listLine (label : String) (payload : List Char) : List Char :=
  ['v', '1'] ++ ' ' :: (label.toList ++ ' ' :: payload)

/-- Reading a list whose line is known. Assumes: the label has no space, and the payload does not
end with the end of a line. -/
theorem parseListFrame_listLine {ρ : Type} {label : String} {separator : Char}
    {parseRow : List Char → Except ProtocolError ρ} {payload : List Char}
    (hlabel : ' ' ∉ label.toList)
    (hpayload : ∀ last, payload.getLast? = some last → ¬ BreaksLine last) :
    parseListFrame label separator parseRow (listLine label payload ++ ['\n']) =
      parseRows separator parseRow payload := by
  have hline : ∀ last, (listLine label payload).getLast? = some last → ¬ BreaksLine last := by
    intro last hlast
    have hend : (listLine label payload).getLast? = payload.getLast?.or (some ' ') := by
      cases hpayload : payload.getLast? <;>
        simp [listLine, List.getLast?_append, List.getLast?_cons, hpayload]
    rw [hend, Option.or_eq_some_iff] at hlast
    rcases hlast with hrows | ⟨_, hspace⟩
    · exact hpayload last hrows
    · obtain rfl := Option.some.inj hspace
      unfold BreaksLine
      decide
  have hsplit : Text.splitN ' ' 3 (listLine label payload) = [['v', '1'], label.toList, payload] := by
    rw [Text.splitN, listLine, Text.splitOnce_append (by decide)]
    dsimp only
    rw [Text.splitN, Text.splitOnce_append hlabel]
    rfl
  rw [parseListFrame, PromptRow.trimEnd_append hline, hsplit]
  simp

/-! ### Rows -/

/-- The characters that neither a numeral nor an escape writes. -/
def RowBreak (character : Char) : Prop := character ∈ ['|', ';', '\r', '\n']

instance (character : Char) : Decidable (RowBreak character) :=
  inferInstanceAs (Decidable (character ∈ _))

theorem RowBreak.not_isDigit {character : Char} (hbreak : RowBreak character) :
    character.isDigit = false := by
  simp only [RowBreak, List.mem_cons, List.not_mem_nil, or_false] at hbreak
  rcases hbreak with rfl | rfl | rfl | rfl <;> decide

/-- An escaped field has none of them. Assumes: the field has no end of a line. -/
theorem RowBreak.not_mem_escapeField {value : String} {character : Char}
    (hbreak : RowBreak character) (hvalue : ∀ other ∈ value.toList, ¬ BreaksLine other) :
    character ∉ (escapeField value).toList := by
  intro hmem
  obtain ⟨hbar, hsemicolon, hvalue' | hcode⟩ := mem_escapeField hmem
  · simp only [RowBreak, List.mem_cons, List.not_mem_nil, or_false] at hbreak
    rcases hbreak with hbar' | hsemicolon' | hline
    · exact hbar hbar'
    · exact hsemicolon hsemicolon'
    · exact hvalue character hvalue' hline
  · simp only [RowBreak, List.mem_cons, List.not_mem_nil, or_false] at hbreak
    rcases hbreak with rfl | rfl | rfl | rfl <;> exact absurd hcode (by decide)

namespace ProcessRow

/-- The fields of a row as they are written. -/
def fields (row : ProcessRow) : List (List Char) :=
  [Nat.toDigits 10 row.pid.toNat, Nat.toDigits 10 row.startTicks.toNat,
    Nat.toDigits 10 row.uid.toNat, row.verdict.toList, row.ports.toList,
    (escapeField row.executable).toList, (escapeField row.cmdline).toList]

theorem toList_encodeRow (row : ProcessRow) :
    row.encodeRow.toList = Text.join '|' row.fields := by
  simp [encodeRow, fields, toList_decimal, Text.join]

/-- What a row has to satisfy to be read back. -/
structure Readable (row : ProcessRow) : Prop where
  verdict : ∀ character ∈ row.verdict.toList, ¬ RowBreak character
  ports : ∀ character ∈ row.ports.toList, ¬ RowBreak character
  executable : ∀ character ∈ row.executable.toList, ¬ BreaksLine character
  cmdline : ∀ character ∈ row.cmdline.toList, ¬ BreaksLine character

/-- No field contains a separator. Assumes: the row is readable, and it is one of its fields. -/
theorem Readable.not_mem_fields {row : ProcessRow} (hrow : row.Readable) {character : Char}
    (hbreak : RowBreak character) {field : List Char} (hfield : field ∈ row.fields) :
    character ∉ field := by
  have hdigits : ∀ number, character ∉ Nat.toDigits 10 number :=
    Text.not_mem_toDigits hbreak.not_isDigit
  have hall : ∀ field ∈ row.fields, character ∉ field := by
    simp only [fields, List.forall_mem_cons]
    refine ⟨hdigits _, hdigits _, hdigits _, ?_, ?_, ?_, ?_, by simp⟩
    · exact fun hmem ↦ hrow.verdict character hmem hbreak
    · exact fun hmem ↦ hrow.ports character hmem hbreak
    · exact hbreak.not_mem_escapeField hrow.executable
    · exact hbreak.not_mem_escapeField hrow.cmdline
  exact hall field hfield

/-- A written row is read back. Assumes: it is readable. -/
theorem Readable.parseRow_encodeRow {row : ProcessRow} (hrow : row.Readable) :
    parseRow row.encodeRow.toList = .ok row := by
  have hsplit : Text.splitN '|' 7 (Text.join '|' row.fields) = row.fields :=
    @Text.splitN_join '|' row.fields (by simp [fields]) fun field hfield ↦
      hrow.not_mem_fields (by decide) hfield
  rw [toList_encodeRow, parseRow, hsplit]
  simp only [fields, Text.parseUnsigned_toDigits row.pid.toNat_lt,
    Text.parseUnsigned_toDigits row.startTicks.toNat_lt,
    Text.parseUnsigned_toDigits row.uid.toNat_lt, String.ofList_toList, UInt32.ofNat_toNat,
    UInt64.ofNat_toNat, unescapeField_escapeField]

end ProcessRow

namespace StatsRow

/-- The fields of a row as they are written. -/
def fields (row : StatsRow) : List (List Char) :=
  [(escapeField row.key).toList, Nat.toDigits 10 row.hits.toNat, Nat.toDigits 10 row.allow.toNat,
    Nat.toDigits 10 row.deny.toNat, Nat.toDigits 10 row.prompt.toNat]

theorem toList_encodeRow (row : StatsRow) :
    row.encodeRow.toList = Text.join '|' row.fields := by
  simp [encodeRow, fields, toList_decimal, Text.join]

/-- No field contains a separator. Assumes: the key has no end of a line, and it is one of the
fields. -/
theorem not_mem_fields {row : StatsRow} (hkey : ∀ other ∈ row.key.toList, ¬ BreaksLine other)
    {character : Char} (hbreak : RowBreak character) {field : List Char}
    (hfield : field ∈ row.fields) : character ∉ field := by
  have hdigits : ∀ number, character ∉ Nat.toDigits 10 number :=
    Text.not_mem_toDigits hbreak.not_isDigit
  have hall : ∀ field ∈ row.fields, character ∉ field := by
    simp only [fields, List.forall_mem_cons]
    exact ⟨hbreak.not_mem_escapeField hkey, hdigits _, hdigits _, hdigits _, hdigits _, by simp⟩
  exact hall field hfield

/-- A written row is read back. Assumes: the key has no end of a line. -/
theorem parseRow_encodeRow {row : StatsRow}
    (hkey : ∀ other ∈ row.key.toList, ¬ BreaksLine other) :
    parseRow row.encodeRow.toList = .ok row := by
  have hsplit : Text.splitN '|' 5 (Text.join '|' row.fields) = row.fields :=
    @Text.splitN_join '|' row.fields (by simp [fields]) fun field hfield ↦
      not_mem_fields hkey (by decide) hfield
  rw [toList_encodeRow, parseRow, hsplit]
  simp only [fields, Text.parseUnsigned_toDigits row.hits.toNat_lt,
    Text.parseUnsigned_toDigits row.allow.toNat_lt, Text.parseUnsigned_toDigits row.deny.toNat_lt,
    Text.parseUnsigned_toDigits row.prompt.toNat_lt, String.ofList_toList, UInt64.ofNat_toNat,
    unescapeField_escapeField]

end StatsRow

/-! ### Lists -/

/-- The frame of a list of rows is read back. Assumes: the label has no space, a row is its fields
joined with bars, the fields contain no separator and no end of a line, and a row is read back. -/
theorem parseListFrame_rows {ρ : Type} {label : String}
    {parseRow : List Char → Except ProtocolError ρ} {rows : List ρ} {encodeRow : ρ → String}
    {first second : ρ → List Char} {fields : ρ → List (List Char)} {frame : List Char}
    (hlabel : ' ' ∉ label.toList)
    (hframe : frame =
      listLine label (";".intercalate (rows.map encodeRow)).toList ++ ['\n'])
    (hencode : ∀ row, (encodeRow row).toList =
      Text.join '|' (first row :: second row :: fields row))
    (hfields : ∀ row ∈ rows, ∀ field ∈ first row :: second row :: fields row,
      ∀ character, RowBreak character → character ∉ field)
    (hread : ∀ row ∈ rows, parseRow (encodeRow row).toList = .ok row) :
    parseListFrame label ';' parseRow frame = .ok rows := by
  have hpayload : (";".intercalate (rows.map encodeRow)).toList =
      Text.join ';' (rows.map fun row ↦ (encodeRow row).toList) := by
    simp [Text.join, Function.comp_def]
  have hclean : ∀ row ∈ rows, ∀ character, RowBreak character → character ≠ '|' →
      character ∉ (encodeRow row).toList := by
    intro row hrow character hbreak hbar hmem
    rw [hencode] at hmem
    rcases Text.mem_of_mem_join hmem with heq | ⟨field, hfield, hcharacter⟩
    · exact hbar heq
    · exact hfields row hrow field hfield character hbreak hcharacter
  have hlast : ∀ last, (Text.join ';' (rows.map fun row ↦ (encodeRow row).toList)).getLast? =
      some last → ¬ BreaksLine last := by
    intro last hlast hbreak
    rcases Text.mem_of_mem_join (List.mem_of_getLast? hlast) with rfl | ⟨text, htext, hmem⟩
    · rcases hbreak with heq | heq <;> exact absurd heq (by decide)
    · obtain ⟨row, hrow, rfl⟩ := List.mem_map.mp htext
      rcases hbreak with rfl | rfl <;> exact hclean row hrow _ (by decide) (by decide) hmem
  have hrows := @parseRows_join ρ ';' parseRow ρ rows (fun row ↦ (encodeRow row).toList) id
    (fun row _ hnil ↦ by
      rw [hencode, Text.join_cons_cons] at hnil
      exact absurd hnil (by simp))
    (fun row hrow ↦ hclean row hrow ';' (by decide) (by decide)) hread
  rw [hframe, hpayload, parseListFrame_listLine hlabel hlast, hrows, List.map_id]

/-- The frame of a process list. -/
theorem toList_encode_processes (value : String) :
    (Response.processes value).encode.toList = listLine "processes" value.toList ++ ['\n'] := by
  have hencode : (Response.processes value).encode = "v1 processes " ++ value ++ "\n" := rfl
  rw [hencode]
  simp [listLine]

/-- The frame of a list of statistics. -/
theorem StatsKind.toList_encode (kind : StatsKind) (value : String) :
    (kind.respond value).encode.toList = listLine kind.label value.toList ++ ['\n'] := by
  have hencode : (kind.respond value).encode = "v1 " ++ kind.label ++ " " ++ value ++ "\n" := by
    cases kind <;> rfl
  rw [hencode]
  simp [listLine]

theorem StatsKind.space_not_mem_label (kind : StatsKind) : ' ' ∉ kind.label.toList := by
  cases kind <;> decide

/-- Process lists and the five lists of statistics are read back from their frames, and
`unescape_field` undoes `escape_field`. Assumes: the verdict and the ports of a process row have no
separator, and no field has an end of a line. -/
theorem process_stats_lists_read_back :
    (∀ rows : List ProcessRow, (∀ row ∈ rows, row.Readable) →
      ProcessRow.parseFrame
        (Response.processes (";".intercalate (rows.map ProcessRow.encodeRow))).encode.toList =
          .ok rows) ∧
    (∀ (kind : StatsKind) (rows : List StatsRow),
      (∀ row ∈ rows, ∀ character ∈ row.key.toList, ¬ BreaksLine character) →
      StatsRow.parseFrame
        (kind.respond (";".intercalate (rows.map StatsRow.encodeRow))).encode.toList kind.label =
          .ok rows) ∧
    ∀ value : String, unescapeField (escapeField value) = value := by
  refine ⟨fun rows hrows ↦ ?_, fun kind rows hrows ↦ ?_, unescapeField_escapeField⟩
  · exact parseListFrame_rows (by decide) (toList_encode_processes _)
      ProcessRow.toList_encodeRow
      (fun row hrow field hfield character hbreak ↦ (hrows row hrow).not_mem_fields hbreak hfield)
      fun row hrow ↦ (hrows row hrow).parseRow_encodeRow
  · exact parseListFrame_rows kind.space_not_mem_label (kind.toList_encode _)
      StatsRow.toList_encodeRow
      (fun row hrow field hfield character hbreak ↦
        StatsRow.not_mem_fields (hrows row hrow) hbreak hfield)
      fun row hrow ↦ StatsRow.parseRow_encodeRow (hrows row hrow)

/-- A command line may have separators, percent signs and what looks like an escape. -/
def awkwardRow : ProcessRow :=
  { pid := 42
    startTicks := 7
    uid := 1000
    executable := "/opt/a|b;c"
    cmdline := "a %7C 100%;%253B|"
    verdict := "allow"
    ports := "443,8443" }

theorem awkwardRow_readable : awkwardRow.Readable := by
  have hclean : ∀ text ∈ [awkwardRow.executable, awkwardRow.cmdline],
      ∀ character ∈ text.toList, ¬ BreaksLine character := by
    simp [awkwardRow, BreaksLine]
  refine ⟨?_, ?_, hclean _ (by simp), hclean _ (by simp)⟩ <;> simp [awkwardRow, RowBreak]

theorem awkward_lists_read_back :
    ProcessRow.parseFrame (Response.processes
      (";".intercalate ([awkwardRow, awkwardRow].map ProcessRow.encodeRow))).encode.toList =
        .ok [awkwardRow, awkwardRow] ∧
    StatsRow.parseFrame (StatsKind.procs.respond
      (";".intercalate ([⟨"/opt/a|b;%7C", 3, 1, 2, 0⟩].map StatsRow.encodeRow))).encode.toList
        "stats-procs" = .ok [⟨"/opt/a|b;%7C", 3, 1, 2, 0⟩] := by
  refine ⟨process_stats_lists_read_back.1 _ ?_,
    process_stats_lists_read_back.2.1 .procs _ ?_⟩
  · simpa using awkwardRow_readable
  · simp [BreaksLine]

end InterFire
