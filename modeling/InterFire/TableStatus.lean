import InterFire.Serving

/-!
# The status of the tables that the daemon installs

`classify_list_output` of `crates/interfire-daemon/src/nft.rs` looks for words in a listing of the
owned table. It flattens the white space first, so a listing with the words of a script is
classified as the script is: what it looks for is found or missed in these words
(`classifyListOutput_eq`, `scriptWords`).

It wants the loopback rule of the output chain. A script with an output chain is recognised, with
the rule that it queues or drops by; a script with an input chain alone has no such rule, and its
table is reported as incomplete (`recognised_iff`).
-/

set_option autoImplicit false
set_option relaxedAutoImplicit false

namespace InterFire

open Nftables Nft

/-! ### The words of the scripts -/

def outputPreludeWords : List String :=
  ["oifname", "\"lo\"", "accept", "ct", "state", "established,related", "accept"]

def inputPreludeWords : List String :=
  ["iifname", "\"lo\"", "accept", "ct", "state", "established,related", "accept"]

def dropWords : List String := ["meta", "l4proto", "tcp", "ct", "state", "new", "drop"]

def queueWords : List String :=
  ["meta", "l4proto", "tcp", "ct", "state", "new", "queue", "num", "4242"]

/-- The words of the output chain of a composed script. -/
def outputWords (compose : TrafficCompose) : List String :=
  outputPreludeWords ++
    if compose.machine.wantsOut then dropWords
    else (wanting (·.wantsOut) compose.users).flatMap userDropWords ++
      if compose.rulesActive && compose.queueBound then queueWords else []

/-- The words of the input chain of a composed script. -/
def inputWords (compose : TrafficCompose) : List String :=
  inputPreludeWords ++
    if compose.machine.wantsIn then dropWords
    else (wanting (·.wantsIn) compose.users).flatMap userDropWords

/-- The words of a chain around those of its rules. -/
def chainWords (name : String) (rules : List String) : List String :=
  ["chain", name, "\x7b", "type", "filter", "hook", name, "priority", "filter;", "policy",
    "accept;"] ++ rules ++ ["\x7d"]

/-- The words of a composed script. -/
def scriptWords (compose : TrafficCompose) : List String :=
  ["table", "inet", "interfire", "\x7b"] ++
    ((if needsOutput compose then chainWords "output" (outputWords compose) else []) ++
      if needsInput compose then chainWords "input" (inputWords compose) else []) ++ ["\x7d"]

/-- The words of a text whose first part ends a line. Assumes: it does. -/
theorem words_append_of_endsLine {first : String} (hend : EndsLine first) (second : String) :
    Text.words (first ++ second).toList =
      Text.words first.toList ++ Text.words second.toList := by
  rcases hend with rfl | ⟨body, hbody⟩
  · simp
  · have hfirst : Text.words first.toList = Text.words body := by
      rw [hbody, Text.words_append body [] (by decide), Text.words_nil, List.append_nil]
    rw [String.toList_append, hfirst, hbody, List.append_assoc, List.singleton_append,
      Text.words_append _ _ (by decide)]

theorem words_userDropText (uid : UInt32) :
    Text.words (userDropText uid).toList = userDropWords uid := by
  rw [toList_userDropText, Text.words_append _ [] (by decide), words_userDropLine, Text.words_nil,
    List.append_nil]

/-- The loop over the users appends the words of their rules. Assumes: the text before the loop ends
a line. -/
theorem words_pushUserDrops (wants : TrafficPreference → Bool)
    (users : List (UInt32 × TrafficPreference)) {rules : String} (hend : EndsLine rules) :
    Text.words (pushUserDrops wants users rules).1.toList =
      Text.words rules.toList ++ (wanting wants users).flatMap userDropWords := by
  have hloop : ∀ (need : Bool) (rules : String), EndsLine rules →
      Text.words (users.foldl (fun pushed user ↦
        if wants user.2 then (pushed.1 ++ userDropText user.1, true) else pushed)
          (rules, need)).1.toList =
        Text.words rules.toList ++ (wanting wants users).flatMap userDropWords := by
    induction users with
    | nil => intro need rules _; simp [wanting]
    | cons user users ih =>
      intro need rules hend
      obtain ⟨uid, preference⟩ := user
      have huser : EndsLine (userDropText uid) := (readsRules_userDropText uid).1
      cases hwants : wants preference with
      | true =>
        have hnext := ih true (rules ++ userDropText uid) (endsLine_append hend huser)
        rw [words_append_of_endsLine hend, words_userDropText] at hnext
        simpa [wanting, hwants] using hnext
      | false =>
        have hnext := ih need rules hend
        simpa [wanting, hwants] using hnext
  exact hloop false rules hend

theorem words_dropText : Text.words dropText.toList = dropWords := by decide

theorem words_composeOutput (compose : TrafficCompose) :
    Text.words (composeOutput compose).1.toList = outputWords compose := by
  have hprelude : EndsLine outputPrelude := readsRules_outputPrelude.1
  have hpreludeWords : Text.words outputPrelude.toList = outputPreludeWords := by decide
  have hqueueWords : Text.words queueText.toList = queueWords := by decide
  unfold composeOutput outputWords
  cases hmachine : compose.machine.wantsOut with
  | true =>
    rw [if_pos rfl, if_pos rfl, words_append_of_endsLine hprelude, hpreludeWords, words_dropText]
  | false =>
    have husers := words_pushUserDrops (·.wantsOut) compose.users hprelude
    have hend := (readsRules_pushUserDrops (·.wantsOut) compose.users readsRules_outputPrelude).1.1
    rw [hpreludeWords] at husers
    cases hqueue : compose.rulesActive && compose.queueBound with
    | true =>
      have hqueued := words_append_of_endsLine hend queueText
      rw [husers, hqueueWords, List.append_assoc] at hqueued
      simpa using hqueued
    | false => simpa using husers

theorem words_composeInput (compose : TrafficCompose) :
    Text.words (composeInput compose).1.toList = inputWords compose := by
  have hprelude : EndsLine inputPrelude := readsRules_inputPrelude.1
  have hpreludeWords : Text.words inputPrelude.toList = inputPreludeWords := by decide
  unfold composeInput inputWords
  cases hmachine : compose.machine.wantsIn with
  | true =>
    rw [if_pos rfl, if_pos rfl, words_append_of_endsLine hprelude, hpreludeWords, words_dropText]
  | false =>
    have husers := words_pushUserDrops (·.wantsIn) compose.users hprelude
    rw [hpreludeWords] at husers
    simpa using husers

/-- The words of a chain, from those of its head and its rules. Assumes: both end a line. -/
theorem words_chain {head rules : String} {name : String} {words : List String}
    (hhead : EndsLine head) (hheadWords : Text.words head.toList =
      ["chain", name, "\x7b", "type", "filter", "hook", name, "priority", "filter;", "policy",
        "accept;"])
    (hrules : EndsLine rules) (hwords : Text.words rules.toList = words) :
    Text.words (head ++ rules ++ "  \x7d\n").toList = chainWords name words := by
  have htail : Text.words "  \x7d\n".toList = ["\x7d"] := by decide
  rw [words_append_of_endsLine (endsLine_append hhead hrules), words_append_of_endsLine hhead,
    hheadWords, hwords, htail, chainWords]

/-- The words of a script that is not empty. Assumes: it is not. -/
theorem words_composeTrafficScript {compose : TrafficCompose}
    (hneeded : composeTrafficScript compose ≠ "") :
    Text.words (composeTrafficScript compose).toList = scriptWords compose := by
  obtain ⟨houtput, hneedOutput⟩ := readsRules_composeOutput compose
  obtain ⟨hinput, hneedInput⟩ := readsRules_composeInput compose
  rw [ne_eq, composeTrafficScript_eq_empty_iff] at hneeded
  unfold composeTrafficScript scriptWords
  dsimp only
  rw [hneedOutput, hneedInput, if_neg (by simpa using hneeded)]
  have houtputWords : Text.words (if needsOutput compose = true then
      "  chain " ++ nftChain ++ " \x7b\n" ++
        "type filter hook output priority filter; policy accept;\n" ++ (composeOutput compose).1 ++
          "  \x7d\n" else "").toList =
      if needsOutput compose then chainWords "output" (outputWords compose) else [] := by
    split_ifs
    · exact words_chain (endsLine_of_getLast? (by decide)) (by decide) houtput.1
        (words_composeOutput compose)
    · rfl
  have hinputWords : Text.words (if needsInput compose = true then
      "  chain input \x7b\n" ++ "type filter hook input priority filter; policy accept;\n" ++
        (composeInput compose).1 ++ "  \x7d\n" else "").toList =
      if needsInput compose then chainWords "input" (inputWords compose) else [] := by
    split_ifs
    · exact words_chain (endsLine_of_getLast? (by decide)) (by decide) hinput.1
        (words_composeInput compose)
    · rfl
  have houtputEnd : EndsLine (if needsOutput compose = true then
      "  chain " ++ nftChain ++ " \x7b\n" ++
        "type filter hook output priority filter; policy accept;\n" ++ (composeOutput compose).1 ++
          "  \x7d\n" else "") := by
    split_ifs
    · exact (readsChains_output houtput).1
    · exact .inl rfl
  have hinputEnd : EndsLine (if needsInput compose = true then
      "  chain input \x7b\n" ++ "type filter hook input priority filter; policy accept;\n" ++
        (composeInput compose).1 ++ "  \x7d\n" else "") := by
    split_ifs
    · exact (readsChains_input hinput).1
    · exact .inl rfl
  have hhead : EndsLine ("table inet " ++ nftTable ++ " \x7b\n") :=
    endsLine_of_getLast? (by decide)
  rw [words_append_of_endsLine (endsLine_append hhead (endsLine_append houtputEnd hinputEnd)),
    words_append_of_endsLine hhead, words_append_of_endsLine houtputEnd, houtputWords, hinputWords]
  rfl

/-! ### What the classifier finds -/

/-- The text that the classifier looks at, from the words of a listing. -/
def flatText (words : List String) : List Char := Text.join ' ' (words.map String.toList)

/-- Consecutive words are found. Assumes: they are, and there is one. -/
theorem infix_flatText {part words : List String} (hne : part ≠ []) (hpart : part <:+: words) :
    flatText part <:+: flatText words :=
  Text.join_infix_join (by simpa using hne) (hpart.map String.toList)

/-- The classification, from what is found in the flattened listing. -/
def classifyFound (table queue tcp new state drop dropEnd lo loPlain : Bool) : NetworkStatusBody :=
  if !table then NetworkStatusBody.body .missing "none"
  else if queue && (tcp && (new || state)) then
    NetworkStatusBody.body .installed "tcp_new_queue_4242"
  else if (drop || dropEnd) && (tcp && (new || state)) && (lo || loPlain) then
    NetworkStatusBody.body .installed "tcp_new_drop"
  else NetworkStatusBody.body .incomplete "none"

theorem classifyListOutput_eq {script : String} {words : List String}
    (hwords : Text.words script.toList = words) :
    NetworkStatusBody.classifyListOutput script =
      classifyFound ("table inet interfire".toList <:+: flatText words)
        ("queue num 4242".toList <:+: flatText words)
        ("meta l4proto tcp".toList <:+: flatText words)
        ("ct state new".toList <:+: flatText words) ("ct state".toList <:+: flatText words)
        (" drop".toList <:+: flatText words) ("drop".toList <:+ flatText words)
        ("oifname \"lo\"".toList <:+: flatText words)
        ("oifname lo".toList <:+: flatText words) := by
  rw [← hwords]
  rfl

section Classify

variable {script : String} {words : List String} (hwords : Text.words script.toList = words)
  (htable : ["table", "inet", "interfire"] <:+: words)

include hwords htable

/-- A listing with the words of the queue rule is that of a queue table. -/
theorem classify_of_queue (hqueue : queueWords <:+: words) :
    NetworkStatusBody.classifyListOutput script =
      NetworkStatusBody.body .installed "tcp_new_queue_4242" := by
  have hname : "table inet interfire".toList <:+: flatText words :=
    infix_flatText (by decide) htable
  have hfound : flatText queueWords <:+: flatText words := infix_flatText (by decide) hqueue
  have hnum : "queue num 4242".toList <:+: flatText words :=
    List.IsInfix.trans (by decide) hfound
  have htcp : "meta l4proto tcp".toList <:+: flatText words :=
    List.IsInfix.trans (by decide) hfound
  have hstate : "ct state".toList <:+: flatText words := List.IsInfix.trans (by decide) hfound
  have hclassified : ∀ new drop dropEnd lo loPlain,
      classifyFound true true true new true drop dropEnd lo loPlain =
        NetworkStatusBody.body .installed "tcp_new_queue_4242" := by decide
  rw [classifyListOutput_eq hwords, decide_eq_true hname, decide_eq_true hnum,
    decide_eq_true htcp, decide_eq_true hstate, hclassified]

/-- A listing with a drop rule and the loopback rule of the output chain, and without the first
letter of the queue rule, is that of a table that drops. -/
theorem classify_of_drop (hqueue : 'q' ∉ flatText words) (hdrop : dropWords <:+: words)
    (hlo : ["oifname", "\"lo\""] <:+: words) :
    NetworkStatusBody.classifyListOutput script =
      NetworkStatusBody.body .installed "tcp_new_drop" := by
  have hname : "table inet interfire".toList <:+: flatText words :=
    infix_flatText (by decide) htable
  have hfound : flatText dropWords <:+: flatText words := infix_flatText (by decide) hdrop
  have hloopback : "oifname \"lo\"".toList <:+: flatText words :=
    infix_flatText (by decide) hlo
  have hdropText : " drop".toList <:+: flatText words := List.IsInfix.trans (by decide) hfound
  have htcp : "meta l4proto tcp".toList <:+: flatText words :=
    List.IsInfix.trans (by decide) hfound
  have hstate : "ct state".toList <:+: flatText words := List.IsInfix.trans (by decide) hfound
  have hnum : ¬ "queue num 4242".toList <:+: flatText words :=
    fun hpart ↦ hqueue (hpart.subset (by decide))
  have hclassified : ∀ new dropEnd loPlain,
      classifyFound true false true new true true dropEnd true loPlain =
        NetworkStatusBody.body .installed "tcp_new_drop" := by decide
  rw [classifyListOutput_eq hwords, decide_eq_true hname, decide_eq_false hnum,
    decide_eq_true htcp, decide_eq_true hstate, decide_eq_true hdropText,
    decide_eq_true hloopback, hclassified]

/-- A listing without the first letter of the queue rule and without the output interface is that of
an incomplete table. -/
theorem classify_of_no_output (hqueue : 'q' ∉ flatText words)
    (hlo : ¬ "oifname".toList <:+: flatText words) :
    NetworkStatusBody.classifyListOutput script =
      NetworkStatusBody.body .incomplete "none" := by
  have hname : "table inet interfire".toList <:+: flatText words :=
    infix_flatText (by decide) htable
  have hnum : ¬ "queue num 4242".toList <:+: flatText words :=
    fun hpart ↦ hqueue (hpart.subset (by decide))
  have hquoted : ¬ "oifname \"lo\"".toList <:+: flatText words :=
    fun hpart ↦ hlo (List.IsInfix.trans (by decide) hpart)
  have hplain : ¬ "oifname lo".toList <:+: flatText words :=
    fun hpart ↦ hlo (List.IsInfix.trans (by decide) hpart)
  have hclassified : ∀ tcp new state drop dropEnd,
      classifyFound true false tcp new state drop dropEnd false false =
        NetworkStatusBody.body .incomplete "none" := by decide
  rw [classifyListOutput_eq hwords, decide_eq_true hname, decide_eq_false hnum,
    decide_eq_false hquoted, decide_eq_false hplain, hclassified]

end Classify

/-! ### What the words of a composed script hold -/

section Words

variable {compose : TrafficCompose} {good : String → Prop}

/-- A property of the words of the users' rules. Assumes: it holds of the words of a drop rule, of
`skuid`, and of numerals. -/
theorem forall_mem_userDropWords (hdrop : ∀ word ∈ "skuid" :: dropWords, good word)
    (hnumeral : ∀ uid : UInt32, good (String.ofList (Nat.toDigits 10 uid.toNat)))
    (users : List UInt32) : ∀ word ∈ users.flatMap userDropWords, good word := by
  intro word hword
  obtain ⟨uid, _, hmem⟩ := List.mem_flatMap.mp hword
  have hwords : userDropWords uid =
      "meta" :: "skuid" :: String.ofList (Nat.toDigits 10 uid.toNat) :: dropWords := rfl
  rw [hwords] at hmem
  rcases List.mem_cons.mp hmem with rfl | hmem
  · exact hdrop "meta" (by decide)
  rcases List.mem_cons.mp hmem with rfl | hmem
  · exact hdrop "skuid" (by decide)
  rcases List.mem_cons.mp hmem with rfl | hmem
  · exact hnumeral uid
  · exact hdrop word (List.mem_cons_of_mem _ hmem)

/-- A property of the words of an input chain. Assumes: it holds of its constant words, and of
numerals. -/
theorem forall_mem_inputWords (hprelude : ∀ word ∈ inputPreludeWords, good word)
    (hdrop : ∀ word ∈ "skuid" :: dropWords, good word)
    (hnumeral : ∀ uid : UInt32, good (String.ofList (Nat.toDigits 10 uid.toNat)))
    (compose : TrafficCompose) : ∀ word ∈ inputWords compose, good word := by
  unfold inputWords
  refine List.forall_mem_append.mpr ⟨hprelude, ?_⟩
  split_ifs
  · exact fun word hword ↦ hdrop word (List.mem_cons_of_mem _ hword)
  · exact forall_mem_userDropWords hdrop hnumeral _

/-- A property of the words of an output chain without a queue rule. Assumes: there is none, and it
holds of the constant words, and of numerals. -/
theorem forall_mem_outputWords
    (hqueue : ¬ (compose.machine.wantsOut = false ∧
      (compose.rulesActive && compose.queueBound) = true))
    (hprelude : ∀ word ∈ outputPreludeWords, good word)
    (hdrop : ∀ word ∈ "skuid" :: dropWords, good word)
    (hnumeral : ∀ uid : UInt32, good (String.ofList (Nat.toDigits 10 uid.toNat))) :
    ∀ word ∈ outputWords compose, good word := by
  unfold outputWords
  refine List.forall_mem_append.mpr ⟨hprelude, ?_⟩
  split_ifs with hmachine hrules
  · exact fun word hword ↦ hdrop word (List.mem_cons_of_mem _ hword)
  · exact absurd ⟨by simpa using hmachine, hrules⟩ hqueue
  · rw [List.append_nil]
    exact forall_mem_userDropWords hdrop hnumeral _

/-- A property of the words of a chain. Assumes: it holds of its constant words and of its rules. -/
theorem forall_mem_chainWords {name : String} {rules : List String}
    (hhead : ∀ word ∈ ["chain", "\x7b", "type", "filter", "hook", "priority", "filter;", "policy",
      "accept;", "\x7d"], good word)
    (hname : good name) (hrules : ∀ word ∈ rules, good word) :
    ∀ word ∈ chainWords name rules, good word := by
  intro word hword
  simp only [chainWords, List.mem_append, List.mem_cons, List.not_mem_nil, or_false] at hword
  simp only [List.mem_cons, List.not_mem_nil, or_false] at hhead
  rcases hword with (hhead' | hrule) | hbrace
  · by_cases heq : word = name
    · exact heq ▸ hname
    · exact hhead word (by tauto)
  · exact hrules word hrule
  · exact hhead word (by tauto)

end Words

/-- A character that occurs in no word does not occur in the flattened text. Assumes: it is not the
space, and occurs in none. -/
theorem not_mem_flatText {character : Char} {words : List String} (hspace : character ≠ ' ')
    (hwords : ∀ word ∈ words, character ∉ word.toList) : character ∉ flatText words := by
  intro hmem
  rcases Text.mem_of_mem_join hmem with rfl | ⟨piece, hpiece, hcharacter⟩
  · exact hspace rfl
  · obtain ⟨word, hword, rfl⟩ := List.mem_map.mp hpiece
    exact hwords word hword hcharacter

/-- A letter is not in a numeral. Assumes: it is not a digit. -/
theorem not_mem_numeral {character : Char} (hletter : character.isDigit = false) (uid : UInt32) :
    character ∉ (String.ofList (Nat.toDigits 10 uid.toNat)).toList := by
  rw [String.toList_ofList]
  exact Text.not_mem_toDigits hletter uid.toNat

/-- A script without a queue rule does not have the first letter of one. Assumes: it has none. -/
theorem not_mem_flatText_scriptWords {compose : TrafficCompose}
    (hqueue : ¬ (compose.machine.wantsOut = false ∧
      (compose.rulesActive && compose.queueBound) = true)) :
    'q' ∉ flatText (scriptWords compose) := by
  refine not_mem_flatText (by decide) ?_
  have hnumeral := not_mem_numeral (show 'q'.isDigit = false by decide)
  unfold scriptWords
  refine List.forall_mem_append.mpr ⟨List.forall_mem_append.mpr ⟨by decide,
    List.forall_mem_append.mpr ⟨?_, ?_⟩⟩, by decide⟩
  · split_ifs
    · exact forall_mem_chainWords (by decide) (by decide)
        (forall_mem_outputWords hqueue (by decide) (by decide) hnumeral)
    · simp
  · split_ifs
    · exact forall_mem_chainWords (by decide) (by decide)
        (forall_mem_inputWords (by decide) (by decide) hnumeral compose)
    · simp

/-- A script without an output chain does not name the output interface. Assumes: it has none. -/
theorem not_infix_flatText_scriptWords {compose : TrafficCompose}
    (houtput : needsOutput compose = false) :
    ¬ "oifname".toList <:+: flatText (scriptWords compose) := by
  intro hpart
  obtain ⟨piece, hpiece, hfound⟩ :=
    Text.exists_infix_of_infix_join (by decide) (by decide) hpart
  obtain ⟨word, hword, rfl⟩ := List.mem_map.mp hpiece
  have hnone : ∀ word ∈ scriptWords compose, ¬ "oifname".toList <:+: word.toList := by
    have hnumeral : ∀ uid : UInt32,
        ¬ "oifname".toList <:+: (String.ofList (Nat.toDigits 10 uid.toNat)).toList :=
      fun uid hnumeral ↦ not_mem_numeral (show 'o'.isDigit = false by decide) uid
        (hnumeral.subset (by decide))
    unfold scriptWords
    rw [houtput]
    refine List.forall_mem_append.mpr ⟨List.forall_mem_append.mpr ⟨by decide,
      List.forall_mem_append.mpr ⟨by simp, ?_⟩⟩, by decide⟩
    split_ifs
    · exact forall_mem_chainWords (by decide) (by decide)
        (forall_mem_inputWords (by decide) (by decide) hnumeral compose)
    · simp
  exact hnone word hword hfound

theorem isInfix_outputWords {compose : TrafficCompose} (houtput : needsOutput compose = true) :
    outputWords compose <:+: scriptWords compose := by
  unfold scriptWords chainWords
  rw [if_pos houtput]
  exact List.infix_append_of_infix_left (List.infix_append_of_infix_right
    (List.infix_append_of_infix_left (List.infix_append_of_infix_left List.infix_append_right)))

/-- An output chain without a queue rule has a drop rule. Assumes: the chain is needed and has no
queue rule. -/
theorem isInfix_dropWords {compose : TrafficCompose} (houtput : needsOutput compose = true)
    (hqueue : ¬ (compose.machine.wantsOut = false ∧
      (compose.rulesActive && compose.queueBound) = true)) :
    dropWords <:+: outputWords compose := by
  unfold outputWords
  split_ifs with hmachine hrules
  · exact List.infix_append_right
  · exact absurd ⟨by simpa using hmachine, hrules⟩ hqueue
  · have husers : compose.users.any (·.2.wantsOut) = true := by
      simp only [needsOutput, Bool.or_eq_true] at houtput
      rcases houtput with (hout | hany) | hactive
      · exact absurd hout hmachine
      · exact hany
      · exact absurd hactive hrules
    obtain ⟨⟨uid, preference⟩, huser, hwants⟩ := List.any_eq_true.mp husers
    have hmem : uid ∈ wanting (·.wantsOut) compose.users :=
      List.mem_map.mpr ⟨(uid, preference), List.mem_filter.mpr ⟨huser, hwants⟩, rfl⟩
    obtain ⟨before, after, hsplit⟩ := List.append_of_mem hmem
    have hrule : dropWords <:+: userDropWords uid :=
      ⟨["meta", "skuid", String.ofList (Nat.toDigits 10 uid.toNat)], [], rfl⟩
    rw [hsplit, List.append_nil, List.flatMap_append, List.flatMap_cons]
    exact hrule.trans (List.infix_append_of_infix_right (List.infix_append_of_infix_right
      List.infix_append_left))

/-! ### Recognised scripts -/

/-- The script declares a rule that queues packets. -/
def QueuesPackets (script : String) : Prop :=
  ∃ table, parseScript script = some table ∧
    ∃ chain ∈ table.chains, ∃ rule ∈ chain.rules, rule.verdict = .queue nfqueueNum

/-- Every listing with the words of the script is classified as installed, with the rule by which it
queues or drops. -/
def Recognised (script : String) : Prop :=
  ∀ listing : String, Text.words listing.toList = Text.words script.toList →
    (QueuesPackets script → NetworkStatusBody.classifyListOutput listing =
      NetworkStatusBody.body .installed "tcp_new_queue_4242") ∧
    (¬ QueuesPackets script → NetworkStatusBody.classifyListOutput listing =
      NetworkStatusBody.body .installed "tcp_new_drop")

/-- A composed script queues exactly when the rules are active on a bound queue and the machine does
not block out. Assumes: the script is not empty. -/
theorem queuesPackets_iff {compose : TrafficCompose} (hneeded : composeTrafficScript compose ≠ "") :
    QueuesPackets (composeTrafficScript compose) ↔
      compose.machine.wantsOut = false ∧ (compose.rulesActive && compose.queueBound) = true := by
  have hnotDrop : ∀ uid, (userDropRule uid).verdict ≠ .queue nfqueueNum := fun uid ↦ by
    simp [userDropRule]
  constructor
  · rintro ⟨table, hparse, chain, hchain, rule, hrule, hverdict⟩
    rw [parseScript_composeTrafficScript hneeded, Option.some.injEq] at hparse
    subst hparse
    have hin : rule ∈ outputRules compose ∨ rule ∈ inputRules compose := by
      rcases List.mem_append.mp hchain with houtput | hinput
      · split_ifs at houtput
        · obtain rfl := List.mem_singleton.mp houtput
          exact .inl hrule
        · cases houtput
      · split_ifs at hinput
        · obtain rfl := List.mem_singleton.mp hinput
          exact .inr hrule
        · cases hinput
    by_contra hqueue
    rcases hin with houtput | hinput
    · rcases List.mem_append.mp houtput with hprelude | hrest
      · rcases List.mem_pair.mp hprelude with rfl | rfl <;> cases hverdict
      · split_ifs at hrest with hmachine hrules
        · obtain rfl := List.mem_singleton.mp hrest
          cases hverdict
        · exact hqueue ⟨by simpa using hmachine, hrules⟩
        · rw [List.append_nil] at hrest
          obtain ⟨uid, _, rfl⟩ := List.mem_map.mp hrest
          exact hnotDrop uid hverdict
    · rcases List.mem_append.mp hinput with hprelude | hrest
      · rcases List.mem_pair.mp hprelude with rfl | rfl <;> cases hverdict
      · split_ifs at hrest
        · obtain rfl := List.mem_singleton.mp hrest
          cases hverdict
        · obtain ⟨uid, _, rfl⟩ := List.mem_map.mp hrest
          exact hnotDrop uid hverdict
  · rintro ⟨hmachine, hrules⟩
    have houtput : needsOutput compose = true := by simp [needsOutput, hrules]
    refine ⟨_, parseScript_composeTrafficScript hneeded,
      ⟨nftChain, .output, .accept, outputRules compose⟩, ?_, queueRule, ?_, rfl⟩
    · simp [composedTable, houtput]
    · simp [outputRules, hmachine, hrules]

theorem queuesPackets_ownedTableScript : QueuesPackets ownedTableScript :=
  ⟨ownedTable, parseScript_ownedTableScript, _, List.mem_singleton_self _, queueRule, by simp, rfl⟩

theorem recognised_ownedTableScript : Recognised ownedTableScript := by
  intro listing hwords
  refine ⟨fun _ ↦ ?_, fun hnone ↦ absurd queuesPackets_ownedTableScript hnone⟩
  have howned : Text.words ownedTableScript.toList =
      ["table", "inet", "interfire", "\x7b"] ++
        chainWords "output" (["oifname", "\"lo\"", "accept"] ++ queueWords) ++ ["\x7d"] := by
    unfold ownedTableScript
    simp only [String.toList_append]
    decide +kernel
  refine classify_of_queue (hwords.trans howned) (by decide) ?_
  exact List.infix_append_of_infix_left (List.infix_append_of_infix_right
    (List.infix_append_of_infix_left (List.infix_append_of_infix_right List.infix_append_right)))

/-- The classifier recognises the fixed table, and a composed table exactly when it has an output
chain: the machine or a user blocks out, or the rules are active on a bound queue. Assumes: the
composed script is not empty. -/
theorem recognised_iff (compose : TrafficCompose) (hneeded : composeTrafficScript compose ≠ "") :
    Recognised ownedTableScript ∧
      (Recognised (composeTrafficScript compose) ↔ needsOutput compose = true) := by
  refine ⟨recognised_ownedTableScript, ?_⟩
  have hwords := words_composeTrafficScript hneeded
  have htable : ["table", "inet", "interfire"] <:+: scriptWords compose :=
    List.infix_append_of_infix_left (List.infix_append_of_infix_left ⟨[], ["\x7b"], rfl⟩)
  constructor
  · intro hrecognised
    by_contra houtput
    rw [Bool.not_eq_true] at houtput
    have hqueue : ¬ (compose.machine.wantsOut = false ∧
        (compose.rulesActive && compose.queueBound) = true) := by
      rintro ⟨_, hrules⟩
      simp [needsOutput, hrules] at houtput
    have hclassified := (hrecognised _ rfl).2 (fun hqueues ↦ hqueue
      ((queuesPackets_iff hneeded).mp hqueues))
    rw [classify_of_no_output hwords htable (not_mem_flatText_scriptWords hqueue)
      (not_infix_flatText_scriptWords houtput)] at hclassified
    exact absurd hclassified (by decide)
  · intro houtput listing hlisting
    have hscript := hlisting.trans hwords
    have hchain := isInfix_outputWords houtput
    refine ⟨fun hqueues ↦ ?_, fun hnone ↦ ?_⟩
    · obtain ⟨hmachine, hrules⟩ := (queuesPackets_iff hneeded).mp hqueues
      refine classify_of_queue hscript htable (List.IsInfix.trans ?_ hchain)
      rw [outputWords, hmachine, hrules]
      exact List.infix_append_of_infix_right List.infix_append_right
    · have hqueue := fun hqueues ↦ hnone ((queuesPackets_iff hneeded).mpr hqueues)
      refine classify_of_drop hscript htable (not_mem_flatText_scriptWords hqueue)
        ((isInfix_dropWords houtput hqueue).trans hchain) (List.IsInfix.trans ?_ hchain)
      exact List.infix_append_of_infix_left ⟨[], _, rfl⟩

/-- A machine block out is recognised. -/
theorem recognised_machine_out : composeTrafficScript ⟨.out, [], false, false⟩ ≠ "" ∧
    Recognised (composeTrafficScript ⟨.out, [], false, false⟩) :=
  ⟨by decide, (recognised_iff ⟨.out, [], false, false⟩ (by decide)).2.mpr rfl⟩

/-- A machine block in is reported as incomplete, although the daemon installed all of it. -/
theorem machine_in_incomplete : composeTrafficScript ⟨.in, [], false, false⟩ ≠ "" ∧
    NetworkStatusBody.classifyListOutput (composeTrafficScript ⟨.in, [], false, false⟩) =
      NetworkStatusBody.body .incomplete "none" := by
  have hneeded : composeTrafficScript ⟨.in, [], false, false⟩ ≠ "" := by decide
  refine ⟨hneeded, classify_of_no_output (words_composeTrafficScript hneeded) (by decide) ?_ ?_⟩
  · exact not_mem_flatText_scriptWords (by decide)
  · exact not_infix_flatText_scriptWords rfl

end InterFire
