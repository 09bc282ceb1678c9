import InterFire.Authority
import InterFire.ListFrames
import InterFire.PromptRecords
import InterFire.RuleChoice

/-!
# Rule and prompt lists on the wire

`rule_list` and `encode_prompts` of `crates/interfire-daemon/src/ipc.rs` join an executable with
bars and commas as it is, and `RuleRow::parse_frame` and `PromptRow::parse_frame` split at them. So
no row that is read has an executable with a bar or a comma (`RuleRow.unseparated_of_parseFrame`,
`PromptRow.unseparated_of_parseFrame`), whatever the frame, and a list is read back exactly when no
executable in it has one: `rule_prompt_lists_read_back_iff`.

An executable of the file system may have both. `spoofed_prompt_row` is a program whose one prompt
is read as a prompt of another program and a second prompt that nobody raised.
-/

set_option autoImplicit false
set_option relaxedAutoImplicit false

namespace InterFire

/-! ### Rows that are read -/

/-- The executable of a row that is read is a piece between bars. Assumes: the row is read. -/
theorem RuleRow.executable_of_parseRow {text : List Char} {row : RuleRow}
    (hread : RuleRow.parseRow text = .ok row) :
    '|' ∉ row.executable.toList ∧ ∀ character ∈ row.executable.toList, character ∈ text := by
  unfold RuleRow.parseRow at hread
  split at hread
  · next id executable verdict port hsplit =>
    split at hread
    · obtain rfl := Except.ok.inj hread
      obtain ⟨_, later, hlater⟩ := Text.not_mem_of_splitN hsplit
      have hpiece : executable ∈ Text.splitN '|' 4 text := by simp [hsplit]
      rw [String.toList_ofList]
      exact ⟨(Text.not_mem_of_splitN hlater).1,
        fun character hmem ↦ Text.mem_of_mem_splitN hpiece hmem⟩
    · cases hread
  · cases hread

/-- The executable of a row that is read is a piece between bars. Assumes: the row is read. -/
theorem PromptRow.executable_of_parseRow {text : List Char} {row : PromptRow}
    (hread : PromptRow.parseRow text = .ok row) :
    '|' ∉ row.executable.toList ∧ ∀ character ∈ row.executable.toList, character ∈ text := by
  unfold PromptRow.parseRow at hread
  split at hread
  · next id executable destination port rest hsplit =>
    split at hread
    · obtain rfl := Except.ok.inj hread
      have hpiece : executable ∈ text.splitOn '|' := by simp [hsplit]
      rw [String.toList_ofList]
      refine ⟨fun hmem ↦ ?_, fun character hmem ↦ Text.mem_of_mem_splitOn hpiece hmem⟩
      simpa using Text.not_of_mem_splitOnP hpiece '|' hmem
    · cases hread
  · cases hread

/-- No row of a rule list that is read has a separator in its executable. Assumes: the frame is read,
and it is one of the rows. -/
theorem RuleRow.unseparated_of_parseFrame {frame : List Char} {rows : List RuleRow}
    (hread : RuleRow.parseFrame frame = .ok rows) {row : RuleRow} (hrow : row ∈ rows) :
    Unseparated row.executable.toList := by
  unfold RuleRow.parseFrame parseListFrame at hread
  split at hread
  · cases hread
  · split_ifs at hread
    obtain ⟨piece, hcomma, hpiece⟩ := exists_of_parseRows_eq_ok hread hrow
    obtain ⟨hbar, hmem⟩ := RuleRow.executable_of_parseRow hpiece
    exact ⟨hbar, fun hmem' ↦ hcomma (hmem ',' hmem')⟩

/-- No row of a prompt list that is read has a separator in its executable. Assumes: the frame is
read, and it is one of the rows. -/
theorem PromptRow.unseparated_of_parseFrame {frame : List Char} {rows : List PromptRow}
    (hread : PromptRow.parseFrame frame = .ok rows) {row : PromptRow} (hrow : row ∈ rows) :
    Unseparated row.executable.toList := by
  unfold PromptRow.parseFrame at hread
  dsimp only at hread
  split_ifs at hread
  split at hread
  · cases hread
  · split_ifs at hread
    obtain ⟨piece, hcomma, hpiece⟩ := exists_of_parseRows_eq_ok hread hrow
    obtain ⟨hbar, hmem⟩ := PromptRow.executable_of_parseRow hpiece
    exact ⟨hbar, fun hmem' ↦ hcomma (hmem ',' hmem')⟩

/-! ### Rules that are written -/

/-- The row that a client should read for a rule. -/
def RuleRow.ofRule (rule : Rule) : RuleRow :=
  ⟨rule.id, rule.executable, rule.verdict.debug, rule.port.getD 0⟩

/-- The fields of a row as they are written. -/
def ruleFields (rule : Rule) : List (List Char) :=
  [Nat.toDigits 10 rule.id.toNat, rule.executable.toList, rule.verdict.debug.toList,
    Nat.toDigits 10 (rule.port.getD 0).toNat]

theorem toList_encodeRule (rule : Rule) :
    (encodeRule rule).toList = Text.join '|' (ruleFields rule) := by
  simp [encodeRule, ruleFields, toList_decimal, Text.join]

/-- The fields of a row besides the executable are plain. Assumes: it is one of them. -/
theorem plain_of_mem_ruleFields {rule : Rule} {field : List Char}
    (hfield : field ∈ ruleFields rule) : field = rule.executable.toList ∨ Plain field := by
  simp only [ruleFields, List.mem_cons, List.not_mem_nil, or_false] at hfield
  rcases hfield with rfl | rfl | rfl | rfl
  · exact .inr (plain_toDigits _)
  · exact .inl rfl
  · right
    cases rule.verdict <;> simp [Plain, separators, Verdict.debug]
  · exact .inr (plain_toDigits _)

/-- A written row is read back. Assumes: the executable has no bar. -/
theorem parseRow_encodeRule {rule : Rule} (hbar : '|' ∉ rule.executable.toList) :
    RuleRow.parseRow (encodeRule rule).toList = .ok (.ofRule rule) := by
  have hsplit : Text.splitN '|' 4 (Text.join '|' (ruleFields rule)) = ruleFields rule := by
    refine @Text.splitN_join '|' (ruleFields rule) (by simp [ruleFields]) fun field hfield ↦ ?_
    rcases plain_of_mem_ruleFields hfield with rfl | hplain
    · exact hbar
    · exact hplain.unseparated.1
  rw [toList_encodeRule, RuleRow.parseRow, hsplit]
  simp only [ruleFields, Text.parseUnsigned_toDigits rule.id.toNat_lt,
    Text.parseUnsigned_toDigits (rule.port.getD 0).toNat_lt, UInt64.ofNat_toNat,
    UInt16.ofNat_toNat, String.ofList_toList]
  rfl

theorem not_mem_encodeRule {rule : Rule} (hcomma : ',' ∉ rule.executable.toList) :
    ',' ∉ (encodeRule rule).toList := by
  intro hmem
  rw [toList_encodeRule] at hmem
  rcases Text.mem_of_mem_join hmem with heq | ⟨field, hfield, hcharacter⟩
  · exact absurd heq (by decide)
  · rcases plain_of_mem_ruleFields hfield with rfl | hplain
    · exact hcomma hcharacter
    · exact hplain.unseparated.2 hcharacter

theorem encodeRule_ne_nil (rule : Rule) : (encodeRule rule).toList ≠ [] := by
  rw [toList_encodeRule]
  simp [ruleFields, Text.join_cons_cons]

/-- A row ends with a digit, whatever the executable. Assumes: the row ends with the character. -/
theorem isDigit_getLast?_encodeRule {rule : Rule} {last : Char}
    (hlast : (encodeRule rule).toList.getLast? = some last) : last.isDigit = true := by
  have hdigits : Nat.toDigits 10 (rule.port.getD 0).toNat ≠ [] := Nat.toDigits_ne_nil
  have hrow : (Text.join '|' (ruleFields rule)).getLast? =
      (Nat.toDigits 10 (rule.port.getD 0).toNat).getLast? :=
    Text.getLast?_join hdigits [Nat.toDigits 10 rule.id.toNat, rule.executable.toList,
      rule.verdict.debug.toList]
  rw [toList_encodeRule, hrow] at hlast
  exact Nat.isDigit_of_mem_toDigits (by decide) (by decide) (List.mem_of_getLast? hlast)

/-- The frame of a rule list. -/
theorem toList_encode_rules (rules : List Rule) :
    (Response.rules (",".intercalate (rules.map encodeRule))).encode.toList =
      listLine "rules" (Text.join ',' (rules.map fun rule ↦ (encodeRule rule).toList)) ++
        ['\n'] := by
  have hencode : (Response.rules (",".intercalate (rules.map encodeRule))).encode =
      "v1 rules " ++ ",".intercalate (rules.map encodeRule) ++ "\n" := rfl
  rw [hencode]
  simp [listLine, Text.join, Function.comp_def]

/-- The frame of a rule list is read back row by row. Assumes: no executable has a bar or a
comma. -/
theorem parseFrame_encodeRules {rules : List Rule}
    (hexecutables : ∀ rule ∈ rules, Unseparated rule.executable.toList) :
    RuleRow.parseFrame (Response.rules (",".intercalate (rules.map encodeRule))).encode.toList =
      .ok (rules.map RuleRow.ofRule) := by
  have hpayload : ∀ last, (Text.join ',' (rules.map fun rule ↦ (encodeRule rule).toList)).getLast? =
      some last → ¬ BreaksLine last := by
    intro last hlast hends
    have hdigit : last.isDigit = true := by
      rcases List.eq_nil_or_concat rules with rfl | ⟨earlier, rule, rfl⟩
      · cases hlast
      · rw [List.concat_eq_append, List.map_append, List.map_singleton,
          Text.getLast?_join (encodeRule_ne_nil rule)] at hlast
        exact isDigit_getLast?_encodeRule hlast
    rcases hends with rfl | rfl
    · exact absurd hdigit (by decide)
    · exact absurd hdigit (by decide)
  rw [toList_encode_rules, RuleRow.parseFrame,
    parseListFrame_listLine (by decide) hpayload]
  exact parseRows_join (fun rule _ ↦ encodeRule_ne_nil rule)
    (fun rule hrule ↦ not_mem_encodeRule (hexecutables rule hrule).2)
    fun rule hrule ↦ parseRow_encodeRule (hexecutables rule hrule).1

/-! ### Prompts that are written -/

namespace PromptQueue

/-- The queues that the operations of the crate build. A prompt is created at an instant whose expiry
the platform can represent; the addition panics at any other. -/
inductive Reachable : PromptQueue → Prop
  | new {capacity : ℕ} (hcapacity : 0 < capacity) (ttl : Duration) :
      Reachable (new capacity hcapacity ttl)
  | takeOnceAllow {queue : PromptQueue} (hreachable : Reachable queue)
      (expireNow checkNow : Instant) (key : PromptKey) :
      Reachable (queue.takeOnceAllow expireNow checkNow key).1
  | consumeOnceDeny {queue : PromptQueue} (hreachable : Reachable queue) (now : Instant)
      (key : PromptKey) : Reachable (queue.consumeOnceDeny now key).1
  | enqueue {queue : PromptQueue} {expireNow createNow : Instant} {key : PromptKey}
      (hreachable : Reachable queue)
      (hcreated : ∀ id, (queue.enqueue expireNow createNow key).2 = .created id →
        createNow + queue.ttl < Instant.limit) :
      Reachable (queue.enqueue expireNow createNow key).1
  | listPending {queue : PromptQueue} (hreachable : Reachable queue) (now : Instant) :
      Reachable (queue.listPending now).1
  | answer {queue : PromptQueue} (hreachable : Reachable queue) (expireNow insertNow : Instant)
      (id : UInt64) (verdict : Verdict) (scope : RuleScope) :
      Reachable (queue.answer expireNow insertNow id verdict scope).1

/-- Every prompt expires at an instant that the platform can represent. Assumes: the queue is
reachable. -/
theorem each_lt_limit_of_reachable {queue : PromptQueue} (hreachable : Reachable queue) :
    queue.Each fun _ expiresAt ↦ expiresAt < Instant.limit := by
  induction hreachable with
  | new hcapacity ttl => exact each_new hcapacity ttl
  | takeOnceAllow _ expireNow _ _ ih => exact each_expire ih expireNow
  | consumeOnceDeny _ now _ ih => exact each_expire ih now
  | enqueue _ hcreated ih => exact each_enqueue ih hcreated
  | listPending _ now ih => exact each_expire ih now
  | answer _ expireNow insertNow id verdict scope ih =>
    exact each_answer ih expireNow insertNow id verdict scope

end PromptQueue

/-- The remaining seconds are a 64-bit number. Assumes: the platform can represent the expiry. -/
theorem Prompt.remainingSecs_lt {prompt : Prompt} (hlimit : prompt.expiresAt < Instant.limit)
    (now : Instant) : prompt.remainingSecs now < 2 ^ 64 := by
  have hbound : Instant.limit < 1000000000 * 2 ^ 64 := by decide
  exact Nat.div_lt_of_lt_mul (((Nat.sub_le _ _).trans_lt hlimit).trans hbound)

/-- A row shows a prompt: its id, its executable, its destination, its port and the seconds that
remain. -/
structure PromptRow.ShowsPrompt (now : Instant) (row : PromptRow) (prompt : Prompt) : Prop where
  id : row.id = prompt.id
  executable : row.executable = prompt.key.executable
  destination : row.destination = prompt.key.ipv4Display
  port : row.port = prompt.key.port
  remainingSecs : row.remainingSecs.toNat = prompt.remainingSecs now

/-- The row of a prompt shows it. Assumes: the platform can represent the expiry. -/
theorem PromptRow.shows_ofPrompt {prompt : Prompt} (hlimit : prompt.expiresAt < Instant.limit)
    (now : Instant) : (PromptRow.ofPrompt now prompt).ShowsPrompt now prompt := by
  refine ⟨rfl, rfl, rfl, rfl, ?_⟩
  have hsecs := Prompt.remainingSecs_lt hlimit now
  rw [PromptRow.ofPrompt, Text.parseUnsigned_toDigits hsecs, Option.getD_some]
  exact UInt64.toNat_ofNat_of_lt' hsecs

/-- Every prompt is shown by a row. Assumes: the rows show the prompts one by one, and it is one of
them. -/
theorem PromptRow.exists_shows {now : Instant} {rows : List PromptRow} {prompts : List Prompt}
    (hshows : List.Forall₂ (PromptRow.ShowsPrompt now) rows prompts) {prompt : Prompt}
    (hprompt : prompt ∈ prompts) : ∃ row ∈ rows, row.ShowsPrompt now prompt := by
  induction hshows with
  | nil => cases hprompt
  | cons hfirst _ ih =>
    rcases List.mem_cons.mp hprompt with rfl | hlater
    · exact ⟨_, List.mem_cons_self, hfirst⟩
    · obtain ⟨row, hrow, hshown⟩ := ih hlater
      exact ⟨row, List.mem_cons_of_mem _ hrow, hshown⟩

/-! ### Lists -/

/-- The rule list is read as the rules. -/
def RulesReadBack (state : ControlState) (set : RuleSet) : Prop :=
  RuleRow.parseFrame state.ruleList.encode.toList = .ok (set.rules.map RuleRow.ofRule)

/-- The prompt list is read as the pending prompts. -/
def PromptsReadBack (context : RequestContext) (state : ControlState) (queue : PromptQueue) :
    Prop :=
  ∃ rows, PromptRow.parseFrame (state.promptList context).2.encode.toList = .ok rows ∧
    List.Forall₂ (PromptRow.ShowsPrompt context.stampNow) rows (queue.listPending context.expireNow).2

/-- A rule list is read back exactly when no executable of a rule has a bar or a comma, and a prompt
list exactly when no executable of a pending prompt does. Assumes: the set of rules and the queue are
reachable, and their locks are not poisoned. -/
theorem rule_prompt_lists_read_back_iff (toml : Toml) :
    (∀ (state : ControlState) (set : RuleSet), state.shared.rules.lock = some set →
      set.Reachable toml →
      (RulesReadBack state set ↔ ∀ rule ∈ set.rules, Unseparated rule.executable.toList)) ∧
    ∀ (context : RequestContext) (state : ControlState) (queue : PromptQueue),
      state.shared.prompts.lock = some queue → queue.Reachable →
      (PromptsReadBack context state queue ↔
        ∀ prompt ∈ (queue.listPending context.expireNow).2,
          Unseparated prompt.key.executable.toList) := by
  refine ⟨fun state set hlock _ ↦ ?_, fun context state queue hlock hreachable ↦ ?_⟩
  · have hlist : state.ruleList = .rules (",".intercalate (set.rules.map encodeRule)) := by
      simp only [ControlState.ruleList, hlock]
    rw [RulesReadBack, hlist]
    refine ⟨fun hread rule hrule ↦ ?_, parseFrame_encodeRules⟩
    exact RuleRow.unseparated_of_parseFrame hread (List.mem_map_of_mem hrule)
  · have hlist : (state.promptList context).2 =
        .prompts (encodePrompts context.stampNow (queue.listPending context.expireNow).2) := by
      simp only [ControlState.promptList, PolicyStore.promptList, ControlState.policyStore, hlock]
    rw [PromptsReadBack, hlist]
    constructor
    · rintro ⟨rows, hread, hshows⟩ prompt hprompt
      obtain ⟨row, hrow, hshown⟩ := PromptRow.exists_shows hshows hprompt
      rw [← hshown.executable]
      exact PromptRow.unseparated_of_parseFrame hread hrow
    · intro hexecutables
      refine ⟨_, parseFrame_encodePrompts hexecutables _, ?_⟩
      rw [List.forall₂_map_left_iff, List.forall₂_same]
      intro prompt hprompt
      have hlimit := PromptQueue.each_of_mem_listPending
        (PromptQueue.each_lt_limit_of_reachable hreachable) hprompt
      exact PromptRow.shows_ofPrompt hlimit _

/-- A daemon that allows curl port 443 and has a prompt of curl for port 80. -/
def curlQueue : PromptQueue :=
  (PromptQueue.withDefaults.enqueue 0 0 ⟨"/usr/bin/curl", 0x0a7100cb, 80⟩).1

def curlState : ControlState :=
  { ControlState.startedWith curlQueue with
    shared :=
      { (ControlState.startedWith curlQueue).shared with rules := Mutex.new ⟨[curlRule]⟩ } }

theorem curl_lists_read_back :
    RulesReadBack curlState ⟨[curlRule]⟩ ∧ PromptsReadBack .ordinary curlState curlQueue ∧
      (curlQueue.listPending 0).2.length = 1 := by
  have hinsert : RuleSet.default.insert curlRule = .ok ⟨[curlRule]⟩ := by decide
  have hset : (⟨[curlRule]⟩ : RuleSet).Reachable curlToml := .insert .default hinsert
  have hqueue : curlQueue.Reachable := .enqueue (.new _ _) fun _ _ ↦ by decide
  have hpending : (curlQueue.listPending 0).2 =
      [⟨1, ⟨"/usr/bin/curl", 0x0a7100cb, 80⟩, .pending, 0, 60000000000, none, none⟩] := by
    decide
  obtain ⟨hrules, hprompts⟩ := rule_prompt_lists_read_back_iff curlToml
  refine ⟨(hrules curlState ⟨[curlRule]⟩ rfl hset).mpr ?_,
    (hprompts .ordinary curlState curlQueue rfl hqueue).mpr ?_, congrArg List.length hpending⟩
  · simpa using (by decide : Unseparated curlRule.executable.toList)
  · change ∀ prompt ∈ (curlQueue.listPending 0).2, Unseparated prompt.key.executable.toList
    rw [hpending]
    simpa using (by decide : Unseparated "/usr/bin/curl".toList)

/-- A program in a directory whose name looks like the fields of a prompt. -/
def spoofingKey : PromptKey :=
  ⟨"/tmp/a|203.0.113.7|443|tcp|60,2|/usr/bin/curl", 0x0a7100cb, 443⟩

/-- The queue with the one prompt of that program. -/
def spoofedQueue : PromptQueue := (PromptQueue.withDefaults.enqueue 0 0 spoofingKey).1

/-- The one prompt of the program is read as two prompts of other programs. -/
theorem spoofed_prompt_row :
    spoofedQueue.Reachable ∧
      (spoofedQueue.listPending 0).2 =
        [⟨1, spoofingKey, .pending, 0, 60000000000, none, none⟩] ∧
      PromptRow.parseFrame
        ((ControlState.startedWith spoofedQueue).promptList .ordinary).2.encode.toList =
        .ok [⟨1, "/tmp/a", "203.0.113.7", 443, "tcp", 60⟩,
          ⟨2, "/usr/bin/curl", "203.0.113.10", 443, "tcp", 60⟩] ∧
      ¬ PromptsReadBack .ordinary (.startedWith spoofedQueue) spoofedQueue := by
  have hpending : (spoofedQueue.listPending 0).2 =
      [⟨1, spoofingKey, .pending, 0, 60000000000, none, none⟩] := by
    decide
  have hread : PromptRow.parseFrame
      ((ControlState.startedWith spoofedQueue).promptList .ordinary).2.encode.toList =
        .ok [⟨1, "/tmp/a", "203.0.113.7", 443, "tcp", 60⟩,
          ⟨2, "/usr/bin/curl", "203.0.113.10", 443, "tcp", 60⟩] := by
    decide
  refine ⟨.enqueue (.new _ _) fun _ _ ↦ by decide, hpending, hread, ?_⟩
  rintro ⟨rows, hrows, hshows⟩
  -- Two rows are read, and one prompt is pending.
  obtain rfl := Except.ok.inj (hread.symm.trans hrows)
  have hlength := hshows.length_eq
  change 2 = (spoofedQueue.listPending 0).2.length at hlength
  rw [hpending] at hlength
  cases hlength

end InterFire
