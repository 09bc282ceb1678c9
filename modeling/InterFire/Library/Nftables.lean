import InterFire.Library.Text

/-!
# A fragment of nftables: scripts, tables and packets

The part of nftables that a host firewall with base chains on the output and the input hook uses. A
`Table` is a list of chains, a chain has a hook, a policy and rules, and a rule has conditions and a
verdict. The verdict of a chain for a packet is the one of the first rule that matches it, otherwise
the policy; a table lets every chain of the packet's hook decide until one does not accept, and an
absent table accepts everything.

`parseScript` reads a script line by line (`parseLine` is one step of that state machine), and
`Table.load` is what loading a script does to a table that is already there: rules are appended to
the chain of the same name.
-/

set_option autoImplicit false
set_option relaxedAutoImplicit false

namespace Nftables

/-! ### Packets and tables -/

inductive Hook
  | output
  | input
  deriving DecidableEq, Repr

inductive Transport
  | tcp
  | udp
  | other
  deriving DecidableEq, Repr

/-- The state that connection tracking gives a packet. -/
inductive CtState
  | new
  | established
  | related
  | invalid
  | untracked
  deriving DecidableEq, Repr

/-- A packet at a hook: the interface it leaves or enters by, and the user of its socket if it has
one. -/
structure Packet where
  hook : Hook
  interface : String
  transport : Transport
  ctState : CtState
  socketUid : Option UInt32
  deriving DecidableEq, Repr

/-- What becomes of a packet. -/
inductive Disposition
  | accept
  | drop
  | queue (number : ℕ)
  deriving DecidableEq, Repr

inductive Match
  | oifname (name : String)
  | iifname (name : String)
  | ctState (states : List CtState)
  | l4proto (transport : Transport)
  | skuid (uid : UInt32)
  deriving DecidableEq, Repr

/-- Whether a match holds of a packet. -/
def Match.holds (packet : Packet) : Match → Bool
  | .oifname name => packet.hook = .output && packet.interface = name
  | .iifname name => packet.hook = .input && packet.interface = name
  | .ctState states => packet.ctState ∈ states
  | .l4proto transport => packet.transport = transport
  | .skuid uid => packet.socketUid = some uid

structure Rule where
  conditions : List Match
  verdict : Disposition
  deriving DecidableEq, Repr

/-- Whether all conditions of a rule hold of a packet. -/
def Rule.applies (packet : Packet) (rule : Rule) : Bool := rule.conditions.all (Match.holds packet)

/-- The verdict of the first rule that applies, otherwise the policy. -/
def decideRules (policy : Disposition) (rules : List Rule) (packet : Packet) : Disposition :=
  match rules.find? (Rule.applies packet) with
  | some rule => rule.verdict
  | none => policy

structure Chain where
  name : String
  hook : Hook
  policy : Disposition
  rules : List Rule
  deriving DecidableEq, Repr

structure Table where
  name : String
  chains : List Chain
  deriving DecidableEq, Repr

/-- The verdict of the chains of a hook in turn: the first one that does not accept decides. -/
def decideChains (packet : Packet) : List Chain → Disposition
  | [] => .accept
  | chain :: rest =>
    if chain.hook = packet.hook then
      match decideRules chain.policy chain.rules packet with
      | .accept => decideChains packet rest
      | verdict => verdict
    else decideChains packet rest

/-- The verdict of a table, or of its absence. -/
def disposition (table : Option Table) (packet : Packet) : Disposition :=
  match table with
  | some table => decideChains packet table.chains
  | none => .accept

/-- Some rule of the table queues packets. -/
def HasQueueRule (number : ℕ) (table : Option Table) : Prop :=
  ∃ owned ∈ table, ∃ chain ∈ owned.chains, ∃ rule ∈ chain.rules, rule.verdict = .queue number

/-- Add a chain of a script to the chains that are there. -/
def addChain (chains : List Chain) (chain : Chain) : List Chain :=
  if chains.any (·.name = chain.name) then
    chains.map fun known ↦
      if known.name = chain.name then { known with rules := known.rules ++ chain.rules } else known
  else chains ++ [chain]

/-- The table after a script is loaded. -/
def load (table : Option Table) (script : Table) : Table :=
  match table with
  | none => script
  | some table => { table with chains := script.chains.foldl addChain table.chains }

/-! ### First match -/

/-- A rule list is decided by its first rule or by the rest. -/
theorem decideRules_cons (policy : Disposition) (rule : Rule) (rules : List Rule)
    (packet : Packet) :
    decideRules policy (rule :: rules) packet =
      if rule.applies packet then rule.verdict else decideRules policy rules packet := by
  unfold decideRules
  rw [List.find?_cons]
  cases hrule : rule.applies packet <;> simp

/-- Rules that do not apply leave the packet to the policy. Assumes: none applies. -/
theorem decideRules_of_not_applies {policy : Disposition} {rules : List Rule} {packet : Packet}
    (hrules : ∀ rule ∈ rules, rule.applies packet = false) :
    decideRules policy rules packet = policy := by
  have hnone : rules.find? (Rule.applies packet) = none :=
    List.find?_eq_none.mpr fun rule hmem ↦ by simp [hrules rule hmem]
  rw [decideRules, hnone]

/-- Rules in sequence: the second part decides as the policy of the first. -/
theorem decideRules_append (policy : Disposition) (first second : List Rule) (packet : Packet) :
    decideRules policy (first ++ second) packet =
      decideRules (decideRules policy second packet) first packet := by
  induction first with
  | nil => rfl
  | cons rule rules ih => rw [List.cons_append, decideRules_cons, decideRules_cons, ih]

/-- Rules with one verdict give it to the packets that one of them matches. -/
theorem decideRules_map_of_verdict {α : Type} (policy verdict : Disposition) (items : List α)
    (rule : α → Rule) (hverdict : ∀ item, (rule item).verdict = verdict) (packet : Packet) :
    decideRules policy (items.map rule) packet =
      if items.any fun item ↦ (rule item).applies packet then verdict else policy := by
  induction items with
  | nil => rfl
  | cons item items ih =>
    rw [List.map_cons, decideRules_cons, ih, hverdict, List.any_cons]
    cases (rule item).applies packet <;> simp

/-- A table without a chain on the packet's hook accepts it. Assumes: no chain has that hook. -/
theorem decideChains_of_hook_ne {chains : List Chain} {packet : Packet}
    (hhooks : ∀ chain ∈ chains, chain.hook ≠ packet.hook) :
    decideChains packet chains = .accept := by
  induction chains with
  | nil => rfl
  | cons chain rest ih =>
    rw [decideChains, if_neg (hhooks chain List.mem_cons_self)]
    exact ih fun other hmem ↦ hhooks other (List.mem_cons_of_mem chain hmem)

theorem decideChains_cons_of_hook_ne {chain : Chain} {packet : Packet}
    (hhook : chain.hook ≠ packet.hook) (rest : List Chain) :
    decideChains packet (chain :: rest) = decideChains packet rest := by
  rw [decideChains, if_neg hhook]

/-- A chain on the packet's hook, followed by chains on other hooks, decides it. Assumes: the hooks
are like that. -/
theorem decideChains_cons_of_hook_eq {chain : Chain} {packet : Packet} {rest : List Chain}
    (hhook : chain.hook = packet.hook) (hrest : decideChains packet rest = .accept) :
    decideChains packet (chain :: rest) = decideRules chain.policy chain.rules packet := by
  rw [decideChains, if_pos hhook, hrest]
  cases decideRules chain.policy chain.rules packet <;> rfl

/-! ### Scripts -/

/-- A name between quotation marks. -/
def parseQuoted (word : String) : Option String :=
  match word.toList with
  | '"' :: rest =>
    match rest.reverse with
    | '"' :: name => some (String.ofList name.reverse)
    | _ => none
  | _ => none

def parseTransport : String → Option Transport
  | "tcp" => some .tcp
  | "udp" => some .udp
  | _ => none

def parseCtState : List Char → Option CtState
  | ['n', 'e', 'w'] => some .new
  | ['e', 's', 't', 'a', 'b', 'l', 'i', 's', 'h', 'e', 'd'] => some .established
  | ['r', 'e', 'l', 'a', 't', 'e', 'd'] => some .related
  | ['i', 'n', 'v', 'a', 'l', 'i', 'd'] => some .invalid
  | ['u', 'n', 't', 'r', 'a', 'c', 'k', 'e', 'd'] => some .untracked
  | _ => none

/-- States separated by commas. -/
def parseCtStates (word : String) : Option (List CtState) :=
  (word.toList.splitOnP (· == ',')).mapM parseCtState

def parseHook : String → Option Hook
  | "output" => some .output
  | "input" => some .input
  | _ => none

/-- A rule: its conditions in order, then its verdict. -/
def parseRule : List String → Option Rule
  | ["accept"] => some ⟨[], .accept⟩
  | ["drop"] => some ⟨[], .drop⟩
  | ["queue", "num", number] => do
    let number ← Text.parseUnsigned (2 ^ 16) number.toList
    return ⟨[], .queue number⟩
  | "oifname" :: name :: rest => do
    let name ← parseQuoted name
    let rule ← parseRule rest
    return { rule with conditions := .oifname name :: rule.conditions }
  | "iifname" :: name :: rest => do
    let name ← parseQuoted name
    let rule ← parseRule rest
    return { rule with conditions := .iifname name :: rule.conditions }
  | "ct" :: "state" :: states :: rest => do
    let states ← parseCtStates states
    let rule ← parseRule rest
    return { rule with conditions := .ctState states :: rule.conditions }
  | "meta" :: "l4proto" :: transport :: rest => do
    let transport ← parseTransport transport
    let rule ← parseRule rest
    return { rule with conditions := .l4proto transport :: rule.conditions }
  | "meta" :: "skuid" :: uid :: rest => do
    let uid ← Text.parseUnsigned (2 ^ 32) uid.toList
    let rule ← parseRule rest
    return { rule with conditions := .skuid (UInt32.ofNat uid) :: rule.conditions }
  | _ => none

/-- Where the reader of a script is. -/
inductive Reader
  | before
  | table (name : String) (chains : List Chain)
  | chainHead (name : String) (chains : List Chain) (chain : String)
  | chainBody (name : String) (chains : List Chain) (chain : Chain)
  | after (table : Table)
  deriving DecidableEq, Repr

/-- Read one line of a script, given as its words. -/
def parseLine : Reader → List String → Option Reader
  | .before, ["table", "inet", name, "\x7b"] => some (.table name [])
  | .table name chains, ["chain", chain, "\x7b"] => some (.chainHead name chains chain)
  | .table name chains, ["\x7d"] => some (.after ⟨name, chains⟩)
  | .chainHead name chains chain,
      ["type", "filter", "hook", hook, "priority", "filter;", "policy", "accept;"] => do
    let hook ← parseHook hook
    return .chainBody name chains ⟨chain, hook, .accept, []⟩
  | .chainBody name chains chain, ["\x7d"] => some (.table name (chains ++ [chain]))
  | .chainBody name chains chain, words => do
    let rule ← parseRule words
    return .chainBody name chains { chain with rules := chain.rules ++ [rule] }
  | _, _ => none

/-- A line that starts with a number sign is a comment. -/
def isComment (words : List String) : Bool :=
  words.head?.any fun word ↦ word.toList.head? = some '#'

/-- The table that a script declares. -/
def parseScript (script : String) : Option Table :=
  match ((Text.wordLines script.toList).filter fun words ↦ !isComment words).foldlM parseLine
      .before with
  | some (.after table) => some table
  | _ => none

/-! ### Reading a script piece by piece -/

/-- A text that is empty or ends in a newline, so that the lines of what follows are not joined to
its last one. -/
def EndsLine (text : String) : Prop := text = "" ∨ ∃ body, text.toList = body ++ ['\n']

theorem endsLine_of_getLast? {text : String} (hlast : text.toList.getLast? = some '\n') :
    EndsLine text :=
  .inr ⟨text.toList.dropLast, (List.dropLast_append_getLast? '\n' hlast).symm⟩

theorem endsLine_append {first second : String} (hfirst : EndsLine first)
    (hsecond : EndsLine second) : EndsLine (first ++ second) := by
  rcases hsecond with rfl | ⟨body, hbody⟩
  · simpa using hfirst
  · exact .inr ⟨first.toList ++ body, by simp [hbody]⟩

/-- The lines that the reader of a script sees. -/
def scriptLines (text : String) : List (List String) :=
  (Text.wordLines text.toList).filter fun words ↦ !isComment words

theorem scriptLines_append {first : String} (hfirst : EndsLine first) (second : String) :
    scriptLines (first ++ second) = scriptLines first ++ scriptLines second := by
  rcases hfirst with rfl | hend
  · simp [scriptLines]
  · simp [scriptLines, Text.wordLines_append_of_newline second.toList hend]

/-- The text is a sequence of rules: read inside a chain, it appends them. -/
def ReadsRules (text : String) (rules : List Rule) : Prop :=
  EndsLine text ∧ ∀ name chains chain,
    (scriptLines text).foldlM parseLine (.chainBody name chains chain) =
      some (.chainBody name chains { chain with rules := chain.rules ++ rules })

theorem readsRules_append {first second : String} {firstRules secondRules : List Rule}
    (hfirst : ReadsRules first firstRules) (hsecond : ReadsRules second secondRules) :
    ReadsRules (first ++ second) (firstRules ++ secondRules) := by
  refine ⟨endsLine_append hfirst.1 hsecond.1, fun name chains chain ↦ ?_⟩
  rw [scriptLines_append hfirst.1, List.foldlM_append, hfirst.2]
  simp [hsecond.2]

/-- One line is one rule. Assumes: the line is not a brace or a comment and parses as the rule. -/
theorem readsRules_of_line {text : String} (words : List String) (rule : Rule)
    (hend : EndsLine text) (hlines : scriptLines text = [words]) (hbrace : words ≠ ["\x7d"])
    (hrule : parseRule words = some rule) : ReadsRules text [rule] := by
  refine ⟨hend, fun name chains chain ↦ ?_⟩
  have hline : parseLine (.chainBody name chains chain) words =
      some (.chainBody name chains { chain with rules := chain.rules ++ [rule] }) := by
    unfold parseLine
    split <;> simp_all
  simp [hlines, hline]

/-- The text is a sequence of chains: read inside a table, it appends them. -/
def ReadsChains (text : String) (added : List Chain) : Prop :=
  EndsLine text ∧ ∀ name chains,
    (scriptLines text).foldlM parseLine (.table name chains) = some (.table name (chains ++ added))

theorem readsChains_empty : ReadsChains "" [] := by
  refine ⟨.inl rfl, fun name chains ↦ ?_⟩
  have hlines : scriptLines "" = [] := rfl
  simp [hlines]

theorem readsChains_append {first second : String} {firstChains secondChains : List Chain}
    (hfirst : ReadsChains first firstChains) (hsecond : ReadsChains second secondChains) :
    ReadsChains (first ++ second) (firstChains ++ secondChains) := by
  refine ⟨endsLine_append hfirst.1 hsecond.1, fun name chains ↦ ?_⟩
  rw [scriptLines_append hfirst.1, List.foldlM_append, hfirst.2]
  simp [hsecond.2]

/-- A chain: its head, its rules and its closing brace. Assumes: the three parts read as that. -/
theorem readsChains_of_readsRules {head text tail : String} {name : String} {hook : Hook}
    {rules : List Rule} (hhead : EndsLine head) (htail : EndsLine tail)
    (hheadLines : ∀ table chains, (scriptLines head).foldlM parseLine (.table table chains) =
      some (.chainBody table chains ⟨name, hook, .accept, []⟩))
    (hrules : ReadsRules text rules) (htailLines : scriptLines tail = [["\x7d"]]) :
    ReadsChains (head ++ text ++ tail) [⟨name, hook, .accept, rules⟩] := by
  refine ⟨endsLine_append (endsLine_append hhead hrules.1) htail, fun table chains ↦ ?_⟩
  rw [scriptLines_append (endsLine_append hhead hrules.1), scriptLines_append hhead,
    List.foldlM_append, List.foldlM_append, hheadLines, htailLines]
  simp [hrules.2, parseLine]

/-- A script: the head of the table, its chains and its closing brace. Assumes: the three parts read
as that. -/
theorem parseScript_of_readsChains {head text tail name : String} {chains : List Chain}
    (hhead : EndsLine head) (hheadLines : scriptLines head = [["table", "inet", name, "\x7b"]])
    (hchains : ReadsChains text chains) (htailLines : scriptLines tail = [["\x7d"]]) :
    parseScript (head ++ text ++ tail) = some ⟨name, chains⟩ := by
  have hlines : ((Text.wordLines (head ++ text ++ tail).toList).filter
      fun words ↦ !isComment words) = scriptLines head ++ scriptLines text ++ scriptLines tail := by
    rw [← scriptLines_append hhead, ← scriptLines_append (endsLine_append hhead hchains.1)]
    rfl
  rw [parseScript, hlines, hheadLines, htailLines, List.foldlM_append, List.foldlM_append]
  simp [parseLine, hchains.2]

end Nftables
