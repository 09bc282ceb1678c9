import InterFire.Prompts
import InterFire.Rows

/-!
# The prompt list on the wire

`encode_prompts` of `crates/interfire-daemon/src/ipc.rs` writes the pending prompts, and
`PromptRow::parse_frame` of `crates/interfire-proto` reads them. Nothing is escaped, so the reader
finds the rows that were written when no executable contains a bar or a comma
(`parseFrame_encodePrompts`), and a client that reads one line finds them when no executable
contains the end of a line either (`readPrompts_encodePrompts`).
-/

set_option autoImplicit false
set_option relaxedAutoImplicit false

namespace InterFire

/-- The whole seconds until a prompt expires. -/
def Prompt.remainingSecs (prompt : Prompt) (now : Instant) : ℕ :=
  (prompt.expiresAt - now) / 1000000000

/-- The row of a prompt. -/
def encodePrompt (now : Instant) (prompt : Prompt) : List Char :=
  Text.join '|'
    [Nat.toDigits 10 prompt.id.toNat, prompt.key.executable.toList, prompt.key.ipv4Display.toList,
      Nat.toDigits 10 prompt.key.port.toNat, ['t', 'c', 'p'],
      Nat.toDigits 10 (prompt.remainingSecs now)]

/-- The rows of the pending prompts. -/
def encodePrompts (now : Instant) (prompts : List Prompt) : String :=
  String.ofList (Text.join ',' (prompts.map (encodePrompt now)))

/-- The row that a client should read for a prompt. -/
def PromptRow.ofPrompt (now : Instant) (prompt : Prompt) : PromptRow :=
  { id := prompt.id
    executable := prompt.key.executable
    destination := prompt.key.ipv4Display
    port := prompt.key.port
    protocol := "tcp"
    remainingSecs := UInt64.ofNat
      ((Text.parseUnsigned (2 ^ 64) (Nat.toDigits 10 (prompt.remainingSecs now))).getD 0) }

/-- The characters that separate fields, rows and frames. -/
def separators : List Char := ['|', ',', '\n']

/-- A text without separators. -/
def Plain (text : List Char) : Prop := ∀ character ∈ text, character ∉ separators

instance (text : List Char) : Decidable (Plain text) :=
  List.decidableBAll (fun character ↦ character ∉ separators) text

/-- A text without the separators of fields and rows. -/
def Unseparated (text : List Char) : Prop := '|' ∉ text ∧ ',' ∉ text

instance (text : List Char) : Decidable (Unseparated text) := inferInstanceAs (Decidable (_ ∧ _))

theorem Plain.unseparated {text : List Char} (hplain : Plain text) : Unseparated text :=
  ⟨fun hmem ↦ hplain '|' hmem (by decide), fun hmem ↦ hplain ',' hmem (by decide)⟩

/-! ### Plain fields -/

theorem toList_decimal (value : ℕ) : (decimal value).toList = Nat.toDigits 10 value :=
  Nat.toList_repr

theorem plain_toDigits (value : ℕ) : Plain (Nat.toDigits 10 value) := by
  intro character hmem hseparator
  have hnone : ∀ separator ∈ separators, separator.isDigit = false := by
    simp [separators]
  exact Text.not_mem_toDigits (hnone character hseparator) value hmem

theorem plain_append {first second : List Char} (hfirst : Plain first) (hsecond : Plain second) :
    Plain (first ++ second) := by
  intro character hmem
  rcases List.mem_append.mp hmem with hleft | hright
  · exact hfirst character hleft
  · exact hsecond character hright

theorem plain_cons {character : Char} {rest : List Char} (hcharacter : character ∉ separators)
    (hrest : Plain rest) : Plain (character :: rest) := by
  intro other hmem
  rcases List.mem_cons.mp hmem with rfl | hlater
  · exact hcharacter
  · exact hrest other hlater

theorem plain_ipv4Display (key : PromptKey) : Plain key.ipv4Display.toList := by
  have hdot : '.' ∉ separators := by decide
  rw [PromptKey.ipv4Display, Octets.toText, String.toList_ofList, Octets.toChars]
  exact plain_append (plain_toDigits _) (plain_cons hdot (plain_append (plain_toDigits _)
    (plain_cons hdot (plain_append (plain_toDigits _) (plain_cons hdot (plain_toDigits _))))))

/-! ### Rows -/

/-- The fields of a row besides the executable are plain. Assumes: it is one of them. -/
theorem plain_of_mem_fields {prompt : Prompt} {now : Instant} {field : List Char}
    (hfield : field ∈ [Nat.toDigits 10 prompt.id.toNat, prompt.key.executable.toList,
      prompt.key.ipv4Display.toList, Nat.toDigits 10 prompt.key.port.toNat, ['t', 'c', 'p'],
      Nat.toDigits 10 (prompt.remainingSecs now)]) :
    field = prompt.key.executable.toList ∨ Plain field := by
  simp only [List.mem_cons, List.not_mem_nil, or_false] at hfield
  rcases hfield with rfl | rfl | rfl | rfl | rfl | rfl
  · exact .inr (plain_toDigits _)
  · exact .inl rfl
  · exact .inr (plain_ipv4Display _)
  · exact .inr (plain_toDigits _)
  · right
    simp [Plain, separators]
  · exact .inr (plain_toDigits _)

/-- A written row is read back. Assumes: the executable has no bar. -/
theorem parseRow_encodePrompt {prompt : Prompt} (hbar : '|' ∉ prompt.key.executable.toList)
    (now : Instant) :
    PromptRow.parseRow (encodePrompt now prompt) = .ok (.ofPrompt now prompt) := by
  have hfields := fun field (hfield : field ∈ _) ↦
    (@plain_of_mem_fields prompt now field hfield).elim
      (fun heq ↦ heq ▸ hbar) fun hplain ↦ hplain.unseparated.1
  have hsplit : (encodePrompt now prompt).splitOn '|' = _ := Text.splitOn_join (by simp) hfields
  rw [PromptRow.parseRow, hsplit]
  simp only [Text.parseUnsigned_toDigits prompt.id.toNat_lt,
    Text.parseUnsigned_toDigits prompt.key.port.toNat_lt, UInt64.ofNat_toNat, UInt16.ofNat_toNat,
    String.ofList_toList, List.getElem?_cons_zero, List.getElem?_cons_succ, Option.map_some,
    Option.getD_some, Option.bind_some]
  rfl

/-- A row has no separator of rows or frames. Assumes: it is one, and the executable does not have
it. -/
theorem not_mem_encodePrompt {prompt : Prompt} {character : Char}
    (hseparator : character ∈ [',', '\n'])
    (hexecutable : character ∉ prompt.key.executable.toList) (now : Instant) :
    character ∉ encodePrompt now prompt := by
  intro hmem
  rcases Text.mem_of_mem_join hmem with rfl | ⟨field, hfield, hcharacter⟩
  · exact absurd hseparator (by decide)
  · rcases plain_of_mem_fields hfield with rfl | hplain
    · exact hexecutable hcharacter
    · exact hplain character hcharacter (List.mem_cons_of_mem '|' hseparator)

theorem encodePrompt_ne_nil (now : Instant) (prompt : Prompt) : encodePrompt now prompt ≠ [] := by
  simp [encodePrompt, Text.join_cons_cons]

/-- A row ends with a digit, whatever the executable. Assumes: the row ends with the character. -/
theorem isDigit_getLast?_encodePrompt {now : Instant} {prompt : Prompt} {last : Char}
    (hlast : (encodePrompt now prompt).getLast? = some last) : last.isDigit = true := by
  have hdigits : Nat.toDigits 10 (prompt.remainingSecs now) ≠ [] := Nat.toDigits_ne_nil
  have hrow : (encodePrompt now prompt).getLast? =
      (Nat.toDigits 10 (prompt.remainingSecs now)).getLast? :=
    Text.getLast?_join hdigits [Nat.toDigits 10 prompt.id.toNat, prompt.key.executable.toList,
      prompt.key.ipv4Display.toList, Nat.toDigits 10 prompt.key.port.toNat, ['t', 'c', 'p']]
  rw [hrow] at hlast
  exact Nat.isDigit_of_mem_toDigits (by decide) (by decide) (List.mem_of_getLast? hlast)

/-! ### Frames -/

/-- A character that ends a line. -/
def BreaksLine (character : Char) : Prop := character = '\r' ∨ character = '\n'

/-- A line without an end is kept. Assumes: it does not end with the end of another line. -/
theorem PromptRow.trimEnd_eq_self {line : List Char}
    (hline : ∀ last, line.getLast? = some last → ¬ BreaksLine last) :
    PromptRow.trimEnd line = line := by
  have hkept : line.reverse.dropWhile (fun character ↦ character = '\r' || character = '\n') =
      line.reverse := by
    cases hrest : line.reverse with
    | nil => rfl
    | cons last rest =>
      have hlast : line.getLast? = some last := by
        rw [← List.head?_reverse, hrest]
        rfl
      have hends := hline last hlast
      rw [BreaksLine, not_or] at hends
      obtain ⟨hreturn, hnewline⟩ := hends
      simp [hreturn, hnewline]
  rw [PromptRow.trimEnd, hkept, List.reverse_reverse]

/-- A line loses nothing but its end. Assumes: it does not end with the end of another line. -/
theorem PromptRow.trimEnd_append {line : List Char}
    (hline : ∀ last, line.getLast? = some last → ¬ BreaksLine last) :
    PromptRow.trimEnd (line ++ ['\n']) = line := by
  have hreverse : (line ++ ['\n']).reverse = '\n' :: line.reverse := by simp
  have hkept := PromptRow.trimEnd_eq_self hline
  rw [PromptRow.trimEnd] at hkept
  rw [PromptRow.trimEnd, hreverse, List.dropWhile_cons_of_pos (by simp), hkept]

/-- What precedes the rows of a frame. -/
def promptsHead : List Char := ['v', '1'] ++ ' ' :: (['p', 'r', 'o', 'm', 'p', 't', 's'] ++ [' '])

/-- The text of a frame. -/
theorem toList_encode_prompts (now : Instant) (prompts : List Prompt) :
    (Response.prompts (encodePrompts now prompts)).encode.toList =
      (promptsHead ++ Text.join ',' (prompts.map (encodePrompt now))) ++ ['\n'] := by
  have hhead : "v1 prompts ".toList = promptsHead := by decide
  have hpayload : (encodePrompts now prompts).toList =
      Text.join ',' (prompts.map (encodePrompt now)) := String.toList_ofList
  have hend : "\n".toList = ['\n'] := by decide
  have hencode : (Response.prompts (encodePrompts now prompts)).encode =
      "v1 prompts " ++ encodePrompts now prompts ++ "\n" := rfl
  rw [hencode, String.toList_append, String.toList_append, hhead, hpayload, hend]

/-- Reading a frame whose line is known. Assumes: the payload does not end with the end of a
line. -/
theorem PromptRow.parseFrame_append {payload : List Char}
    (hpayload : ∀ last, payload.getLast? = some last → ¬ BreaksLine last) :
    PromptRow.parseFrame ((promptsHead ++ payload) ++ ['\n']) =
      PromptRow.parsePayload payload := by
  have hhead : ∀ last, promptsHead.getLast? = some last → ¬ BreaksLine last := by
    rintro last hlast
    obtain rfl := Option.some.inj hlast
    unfold BreaksLine
    decide
  have hline : ∀ last, (promptsHead ++ payload).getLast? = some last → ¬ BreaksLine last := by
    intro last hlast
    rw [List.getLast?_append, Option.or_eq_some_iff] at hlast
    rcases hlast with hrows | ⟨_, hfixed⟩
    · exact hpayload last hrows
    · exact hhead last hfixed
  have hcut : promptsHead ++ payload =
      ['v', '1'] ++ ' ' :: (['p', 'r', 'o', 'm', 'p', 't', 's'] ++ ' ' :: payload) := by
    simp [promptsHead]
  have hcommand : Text.splitOnce ' ' (['p', 'r', 'o', 'm', 'p', 't', 's'] ++ ' ' :: payload) =
      (['p', 'r', 'o', 'm', 'p', 't', 's'], some payload) :=
    Text.splitOnce_append (by decide) payload
  rw [PromptRow.parseFrame, PromptRow.trimEnd_append hline, hcut,
    Text.splitOnce_append (by decide)]
  simp only [ne_eq, not_true_eq_false, if_false, Option.map_some, hcommand, Option.getD_some]

/-- The rows of a list end with a digit. Assumes: there is a last character. -/
theorem isDigit_getLast?_join {now : Instant} {prompts : List Prompt} {last : Char}
    (hlast : (Text.join ',' (prompts.map (encodePrompt now))).getLast? = some last) :
    last.isDigit = true := by
  rcases List.eq_nil_or_concat prompts with rfl | ⟨earlier, prompt, rfl⟩
  · cases hlast
  · rw [List.concat_eq_append, List.map_append, List.map_singleton,
      Text.getLast?_join (encodePrompt_ne_nil now prompt)] at hlast
    exact isDigit_getLast?_encodePrompt hlast

/-- The frame of a prompt list is read back row by row. Assumes: no executable has a bar or a
comma. -/
theorem parseFrame_encodePrompts {prompts : List Prompt}
    (hexecutables : ∀ prompt ∈ prompts, Unseparated prompt.key.executable.toList)
    (now : Instant) :
    PromptRow.parseFrame (Response.prompts (encodePrompts now prompts)).encode.toList =
      .ok (prompts.map (PromptRow.ofPrompt now)) := by
  have hpayload : ∀ last, (Text.join ',' (prompts.map (encodePrompt now))).getLast? = some last →
      ¬ BreaksLine last := by
    intro last hlast hends
    have hdigit := isDigit_getLast?_join hlast
    rcases hends with rfl | rfl
    · exact absurd hdigit (by decide)
    · exact absurd hdigit (by decide)
  rw [toList_encode_prompts, PromptRow.parseFrame_append hpayload]
  exact parseRows_join (fun prompt _ ↦ encodePrompt_ne_nil now prompt)
    (fun prompt hprompt ↦
      not_mem_encodePrompt List.mem_cons_self (hexecutables prompt hprompt).2 now)
    fun prompt hprompt ↦ parseRow_encodePrompt (hexecutables prompt hprompt).1 now

/-! ### What a client fetches -/

/-- A longer line is turned down. -/
def maxFrameBytes : ℕ := 8 * 1024

/-- The first line of what a peer sent, with its end. -/
def readLine (text : List Char) : List Char :=
  text.takeWhile (· ≠ '\n') ++ (text.dropWhile (· ≠ '\n')).take 1

/-- Read one line and the prompt list in it. No rows is a line that is too long or malformed. -/
def readPrompts (text : String) : Option (List PromptRow) :=
  let line := readLine text.toList
  if maxFrameBytes < (String.ofList line).utf8ByteSize then none
  else (PromptRow.parseFrame line).toOption

/-- A text that is one line is read whole. Assumes: it has no other end of a line. -/
theorem readLine_append {line : List Char} (hline : '\n' ∉ line) :
    readLine (line ++ ['\n']) = line ++ ['\n'] := by
  have hall : ∀ character ∈ line, decide (character ≠ '\n') = true := by
    intro character hmem
    have hne : character ≠ '\n' := fun heq ↦ hline (heq ▸ hmem)
    simpa using hne
  rw [readLine, List.takeWhile_append_of_pos hall, List.dropWhile_append_of_pos hall]
  simp

/-- A client that reads the frame of a prompt list finds the rows of its prompts. Assumes: every
executable is plain, and the client accepts the line. -/
theorem readPrompts_encodePrompts {prompts : List Prompt}
    (hplain : ∀ prompt ∈ prompts, Plain prompt.key.executable.toList) {now : Instant}
    {rows : List PromptRow}
    (hrows : readPrompts (Response.prompts (encodePrompts now prompts)).encode = some rows) :
    rows = prompts.map (PromptRow.ofPrompt now) := by
  have hnewline : '\n' ∉ promptsHead ++ Text.join ',' (prompts.map (encodePrompt now)) := by
    intro hmem
    rcases List.mem_append.mp hmem with hhead | hpayload
    · exact absurd hhead (by decide)
    · rcases Text.mem_of_mem_join hpayload with heq | ⟨row, hrow, hcharacter⟩
      · exact absurd heq (by decide)
      · obtain ⟨prompt, hprompt, rfl⟩ := List.mem_map.mp hrow
        refine not_mem_encodePrompt (.tail ',' List.mem_cons_self) (fun hmem ↦ ?_) now hcharacter
        exact hplain prompt hprompt '\n' hmem (by decide)
  have hline : readLine (Response.prompts (encodePrompts now prompts)).encode.toList =
      (Response.prompts (encodePrompts now prompts)).encode.toList := by
    rw [toList_encode_prompts, readLine_append hnewline]
  have hexecutables := fun prompt hprompt ↦ (hplain prompt hprompt).unseparated
  rw [readPrompts, hline, parseFrame_encodePrompts hexecutables now] at hrows
  split_ifs at hrows
  exact (Option.some.inj hrows).symm

end InterFire
