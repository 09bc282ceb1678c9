import Mathlib.Data.List.Infix
import InterFire.Library.Nftables
import InterFire.Traffic

/-!
# The owned nftables table

`crates/interfire-daemon/src/nft.rs`: the scripts the daemon loads and the commands it runs. The
owned table is absent or a `Nftables.Table`; a command ends as its outcome says, and a failed
command leaves the table alone. `install` and `installComposed` delete the table first and ignore
how that ended.

`parseScript_ownedTableScript` and `parseScript_composeTrafficScript` read the script texts back as
tables (`ownedTable`, `composedTable`), so the rest of the development reasons about tables only.
-/

set_option autoImplicit false
set_option relaxedAutoImplicit false

namespace InterFire

open Nftables

namespace Nft

/-! ### Scripts -/

def nftTable : String := "interfire"

def nftChain : String := "output"

def nfqueueNum : ℕ := 4242

/-- The fixed script of the queue table. The line continuations of the source drop the indentation
of the lines that follow them. -/
def ownedTableScript : String :=
  "table inet " ++ nftTable ++ " \x7b\n" ++
  "chain " ++ nftChain ++ " \x7b\n" ++
  "type filter hook output priority filter; policy accept;\n" ++
  "oifname \"lo\" accept\n" ++
  "meta l4proto tcp ct state new queue num " ++ toString nfqueueNum ++ "\n" ++
  "\x7d\n" ++
  "\x7d\n"

structure TrafficCompose where
  machine : TrafficPreference
  users : List (UInt32 × TrafficPreference)
  rulesActive : Bool
  queueBound : Bool
  deriving DecidableEq, Repr

/-- The rules every output chain starts with. -/
def outputPrelude : String :=
  "    oifname \"lo\" accept\n" ++ "ct state established,related accept\n"

/-- The rules every input chain starts with. -/
def inputPrelude : String :=
  "    iifname \"lo\" accept\n" ++ "ct state established,related accept\n"

def dropText : String := "    meta l4proto tcp ct state new drop\n"

def userDropText (uid : UInt32) : String :=
  "    meta skuid " ++ toString uid.toNat ++ " meta l4proto tcp ct state new drop\n"

def queueText : String :=
  "    meta l4proto tcp ct state new queue num " ++ toString nfqueueNum ++ "\n"

/-- The loop over the users: the text of a chain grows by a rule for each user that wants the
direction, and the chain is then needed. -/
def pushUserDrops (wants : TrafficPreference → Bool)
    (users : List (UInt32 × TrafficPreference)) (rules : String) : String × Bool :=
  users.foldl (fun (rules, need) (uid, preference) ↦
    if wants preference then (rules ++ userDropText uid, true) else (rules, need)) (rules, false)

/-- The rules of the output chain, and whether it is needed. -/
def composeOutput (compose : TrafficCompose) : String × Bool :=
  if compose.machine.wantsOut then (outputPrelude ++ dropText, true)
  else
    let (rules, need) := pushUserDrops (·.wantsOut) compose.users outputPrelude
    if compose.rulesActive && compose.queueBound then (rules ++ queueText, true) else (rules, need)

/-- The rules of the input chain, and whether it is needed. -/
def composeInput (compose : TrafficCompose) : String × Bool :=
  if compose.machine.wantsIn then (inputPrelude ++ dropText, true)
  else pushUserDrops (·.wantsIn) compose.users inputPrelude

/-- The script of a combination of preferences and rules mode; empty when no chain is needed. -/
def composeTrafficScript (compose : TrafficCompose) : String :=
  let (outputRules, needOutput) := composeOutput compose
  let (inputRules, needInput) := composeInput compose
  if !needOutput && !needInput then ""
  else
    "table inet " ++ nftTable ++ " \x7b\n" ++
    ((if needOutput then
      "  chain " ++ nftChain ++ " \x7b\n" ++
        "type filter hook output priority filter; policy accept;\n" ++ outputRules ++ "  \x7d\n"
    else "") ++
    (if needInput then
      "  chain input \x7b\n" ++
        "type filter hook input priority filter; policy accept;\n" ++ inputRules ++ "  \x7d\n"
    else "")) ++
    "\x7d\n"

/-! ### Commands -/

/-- How a `delete` command ends. When the table is absent `nft` reports that, and the daemon takes
it as done. -/
inductive DeleteOutcome
  | done
  | spawnFailed (error : String)
  | rejected (stderr : String)
  deriving DecidableEq, Repr

/-- How a `-f` command ends. -/
inductive LoadOutcome
  | done
  | spawnFailed (error : String)
  | stdinUnavailable
  | writeFailed (error : String)
  | waitFailed (error : String)
  | rejected (stderr : String)
  deriving DecidableEq, Repr

/-- How the two commands of an installation end. -/
structure NftOutcomes where
  delete : DeleteOutcome
  load : LoadOutcome
  deriving DecidableEq, Repr

/-- Both commands succeed. -/
def NftOutcomes.success : NftOutcomes := ⟨.done, .done⟩

def stderrIndicatesMissing (stderr : String) : Bool :=
  let lower := (Text.toAsciiLowercase stderr).toList
  "no such file".toList <:+: lower || "does not exist".toList <:+: lower ||
    "not found".toList <:+: lower

def trimmed (text : String) : String := String.ofList (Text.trim text.toList)

/-- Delete the owned table. -/
def remove (outcome : DeleteOutcome) (table : Option Table) : Option Table × Except String Unit :=
  match outcome with
  | .done => (none, .ok ())
  | .spawnFailed error => (table, .error ("nft spawn failed: " ++ error))
  | .rejected stderr =>
    (table, if stderrIndicatesMissing stderr then .ok ()
      else .error ("nft remove failed: " ++ trimmed stderr))

/-- Load a script. `nft` rejects a script it cannot parse. -/
def loadScript (outcome : LoadOutcome) (failure script : String) (table : Option Table) :
    Option Table × Except String Unit :=
  match outcome with
  | .done =>
    match parseScript script with
    | some declared => (some (load table declared), .ok ())
    | none => (table, .error failure)
  | .spawnFailed error => (table, .error ("nft spawn failed: " ++ error))
  | .stdinUnavailable => (table, .error "nft stdin unavailable")
  | .writeFailed error => (table, .error error)
  | .waitFailed error => (table, .error ("nft wait failed: " ++ error))
  | .rejected stderr => (table, .error (failure ++ trimmed stderr))

/-- Delete the table, whatever comes of it, and load the queue table. -/
def install (outcomes : NftOutcomes) (table : Option Table) : Option Table × Except String Unit :=
  loadScript outcomes.load "nft install failed: " ownedTableScript
    (remove outcomes.delete table).1

/-- Install a composed table, or remove the table when no chain is needed. -/
def installComposed (outcomes : NftOutcomes) (compose : TrafficCompose) (table : Option Table) :
    Option Table × Except String Unit :=
  let script := composeTrafficScript compose
  if script = "" then remove outcomes.delete table
  else loadScript outcomes.load "nft traffic install failed: " script
    (remove outcomes.delete table).1

/-- The fail-closed table of a machine block. -/
def installBlock (outcomes : NftOutcomes) (table : Option Table) :
    Option Table × Except String Unit :=
  installComposed outcomes
    { machine := .out, users := [], rulesActive := false, queueBound := false } table

/-! ### The tables of the scripts -/

def loopbackOutRule : Nftables.Rule := ⟨[.oifname "lo"], .accept⟩

def loopbackInRule : Nftables.Rule := ⟨[.iifname "lo"], .accept⟩

def establishedRule : Nftables.Rule := ⟨[.ctState [.established, .related]], .accept⟩

def dropRule : Nftables.Rule := ⟨[.l4proto .tcp, .ctState [.new]], .drop⟩

def userDropRule (uid : UInt32) : Nftables.Rule :=
  ⟨[.skuid uid, .l4proto .tcp, .ctState [.new]], .drop⟩

def queueRule : Nftables.Rule := ⟨[.l4proto .tcp, .ctState [.new]], .queue nfqueueNum⟩

/-- The table of the fixed queue script. -/
def ownedTable : Table :=
  { name := nftTable
    chains := [⟨nftChain, .output, .accept, [loopbackOutRule, queueRule]⟩] }

/-- The users that want a direction. -/
def wanting (wants : TrafficPreference → Bool) (users : List (UInt32 × TrafficPreference)) :
    List UInt32 :=
  (users.filter fun user ↦ wants user.2).map Prod.fst

def outputRules (compose : TrafficCompose) : List Nftables.Rule :=
  [loopbackOutRule, establishedRule] ++
    if compose.machine.wantsOut then [dropRule]
    else (wanting (·.wantsOut) compose.users).map userDropRule ++
      if compose.rulesActive && compose.queueBound then [queueRule] else []

def inputRules (compose : TrafficCompose) : List Nftables.Rule :=
  [loopbackInRule, establishedRule] ++
    if compose.machine.wantsIn then [dropRule]
    else (wanting (·.wantsIn) compose.users).map userDropRule

def needsOutput (compose : TrafficCompose) : Bool :=
  compose.machine.wantsOut || compose.users.any (·.2.wantsOut) ||
    (compose.rulesActive && compose.queueBound)

def needsInput (compose : TrafficCompose) : Bool :=
  compose.machine.wantsIn || compose.users.any (·.2.wantsIn)

/-- The table of a composed script. -/
def composedTable (compose : TrafficCompose) : Table :=
  { name := nftTable
    chains :=
      (if needsOutput compose then [⟨nftChain, .output, .accept, outputRules compose⟩] else []) ++
      if needsInput compose then [⟨"input", .input, .accept, inputRules compose⟩] else [] }

/-- The fixed script declares the queue table. -/
theorem parseScript_ownedTableScript : parseScript ownedTableScript = some ownedTable := by
  decide +kernel

section Reading

theorem readsRules_established : ReadsRules "ct state established,related accept\n"
    [establishedRule] :=
  readsRules_of_line ["ct", "state", "established,related", "accept"] _
    (endsLine_of_getLast? (by decide)) (by decide) (by decide) (by decide)

theorem readsRules_outputPrelude : ReadsRules outputPrelude [loopbackOutRule, establishedRule] :=
  readsRules_append
    (readsRules_of_line ["oifname", "\"lo\"", "accept"] loopbackOutRule
      (endsLine_of_getLast? (by decide)) (by decide) (by decide) (by decide))
    readsRules_established

theorem readsRules_inputPrelude : ReadsRules inputPrelude [loopbackInRule, establishedRule] :=
  readsRules_append
    (readsRules_of_line ["iifname", "\"lo\"", "accept"] loopbackInRule
      (endsLine_of_getLast? (by decide)) (by decide) (by decide) (by decide))
    readsRules_established

theorem readsRules_dropText : ReadsRules dropText [dropRule] :=
  readsRules_of_line ["meta", "l4proto", "tcp", "ct", "state", "new", "drop"] dropRule
    (endsLine_of_getLast? (by decide)) (by decide) (by decide) (by decide)

theorem readsRules_queueText : ReadsRules queueText [queueRule] :=
  readsRules_of_line
    ["meta", "l4proto", "tcp", "ct", "state", "new", "queue", "num", "4242"] queueRule
    (endsLine_of_getLast? (by decide)) (by decide) (by decide) (by decide)

/-- A user's rule is one line, with the numeral of the user between constant words. -/
theorem toList_userDropText (uid : UInt32) :
    (userDropText uid).toList =
      ("    meta skuid".toList ++ ' ' :: (Nat.toDigits 10 uid.toNat ++
        ' ' :: "meta l4proto tcp ct state new drop".toList)) ++ '\n' :: [] := by
  have hnumeral : (toString uid.toNat).toList = Nat.toDigits 10 uid.toNat := Nat.toList_repr
  have hfront : "    meta skuid ".toList = "    meta skuid".toList ++ [' '] := by decide
  have hback : " meta l4proto tcp ct state new drop\n".toList =
      ' ' :: ("meta l4proto tcp ct state new drop".toList ++ ['\n']) := by decide
  have htext : userDropText uid = "    meta skuid " ++ toString uid.toNat ++
      " meta l4proto tcp ct state new drop\n" := rfl
  rw [htext, String.toList_append, String.toList_append, hnumeral, hfront, hback]
  simp only [List.append_assoc, List.cons_append, List.nil_append]

/-- The words of a user's rule. -/
def userDropWords (uid : UInt32) : List String :=
  ["meta", "skuid", String.ofList (Nat.toDigits 10 uid.toNat), "meta", "l4proto", "tcp", "ct",
    "state", "new", "drop"]

theorem words_userDropLine (uid : UInt32) :
    Text.words ("    meta skuid".toList ++ ' ' :: (Nat.toDigits 10 uid.toNat ++
      ' ' :: "meta l4proto tcp ct state new drop".toList)) = userDropWords uid := by
  rw [Text.words_append _ _ (by decide), Text.words_append _ _ (by decide), Text.words_toDigits]
  have hfront : Text.words "    meta skuid".toList = ["meta", "skuid"] := by decide
  have hback : Text.words "meta l4proto tcp ct state new drop".toList =
      ["meta", "l4proto", "tcp", "ct", "state", "new", "drop"] := by decide
  rw [hfront, hback]
  rfl

/-- A user's rule is one line of its words. -/
theorem scriptLines_userDropText (uid : UInt32) :
    scriptLines (userDropText uid) = [userDropWords uid] := by
  have hline : ∀ character ∈ "    meta skuid".toList ++ ' ' :: (Nat.toDigits 10 uid.toNat ++
      ' ' :: "meta l4proto tcp ct state new drop".toList), character ≠ '\n' := by
    intro character hmem
    rintro rfl
    simp only [List.mem_append, List.mem_cons] at hmem
    have hdigits : '\n' ∉ Nat.toDigits 10 uid.toNat := fun hdigit ↦
      absurd (Text.not_isWhitespace_of_mem_toDigits hdigit) (by decide)
    rcases hmem with hfront | hspace | hdigit | hspace | hback
    · exact absurd hfront (by decide)
    · exact absurd hspace (by decide)
    · exact hdigits hdigit
    · exact absurd hspace (by decide)
    · exact absurd hback (by decide)
  rw [scriptLines, toList_userDropText, Text.wordLines_append, Text.wordLines_of_line hline,
    words_userDropLine]
  rfl

theorem readsRules_userDropText (uid : UInt32) :
    ReadsRules (userDropText uid) [userDropRule uid] := by
  have hend : EndsLine (userDropText uid) := .inr ⟨_, toList_userDropText uid⟩
  refine readsRules_of_line _ _ hend (scriptLines_userDropText uid) (by simp [userDropWords]) ?_
  have huid : Text.parseUnsigned (2 ^ 32) (Nat.toDigits 10 uid.toNat) = some uid.toNat :=
    Text.parseUnsigned_toDigits uid.toNat_lt
  simp only [userDropWords, parseRule, String.toList_ofList, huid]
  simp only [Option.bind_eq_bind, Option.bind_some, Option.pure_def, UInt32.ofNat_toNat]
  rfl

/-- The loop over the users appends their rules and needs the chain when there is one. Assumes: the
text before the loop reads as rules. -/
theorem readsRules_pushUserDrops (wants : TrafficPreference → Bool)
    (users : List (UInt32 × TrafficPreference)) {rules : String} {read : List Nftables.Rule}
    (hrules : ReadsRules rules read) :
    ReadsRules (pushUserDrops wants users rules).1
        (read ++ (wanting wants users).map userDropRule) ∧
      (pushUserDrops wants users rules).2 = users.any fun user ↦ wants user.2 := by
  have hloop : ∀ (need : Bool) (rules : String) (read : List Nftables.Rule),
      ReadsRules rules read →
      let result := users.foldl (fun (rules, need) (uid, preference) ↦
        if wants preference then (rules ++ userDropText uid, true) else (rules, need)) (rules, need)
      ReadsRules result.1 (read ++ (wanting wants users).map userDropRule) ∧
        result.2 = (need || users.any fun user ↦ wants user.2) := by
    induction users with
    | nil => intro need rules read hrules; simpa [wanting] using hrules
    | cons user users ih =>
      intro need rules read hrules
      obtain ⟨uid, preference⟩ := user
      cases hwants : wants preference with
      | true =>
        have hnext := ih true (rules ++ userDropText uid) (read ++ [userDropRule uid])
          (readsRules_append hrules (readsRules_userDropText uid))
        simpa [wanting, hwants] using hnext
      | false =>
        have hnext := ih need rules read hrules
        simpa [wanting, hwants] using hnext
  simpa [pushUserDrops] using hloop false rules read hrules

theorem readsRules_composeOutput (compose : TrafficCompose) :
    ReadsRules (composeOutput compose).1 (outputRules compose) ∧
      (composeOutput compose).2 = needsOutput compose := by
  unfold composeOutput outputRules needsOutput
  cases hmachine : compose.machine.wantsOut with
  | true =>
    exact ⟨by simpa using readsRules_append readsRules_outputPrelude readsRules_dropText, by simp⟩
  | false =>
    obtain ⟨hread, hneed⟩ :=
      readsRules_pushUserDrops (·.wantsOut) compose.users readsRules_outputPrelude
    cases hqueue : compose.rulesActive && compose.queueBound with
    | true =>
      have hqueued := readsRules_append hread readsRules_queueText
      exact ⟨by simpa using hqueued, by simp⟩
    | false => exact ⟨by simpa using hread, by simpa using hneed⟩

theorem readsRules_composeInput (compose : TrafficCompose) :
    ReadsRules (composeInput compose).1 (inputRules compose) ∧
      (composeInput compose).2 = needsInput compose := by
  unfold composeInput inputRules needsInput
  cases hmachine : compose.machine.wantsIn with
  | true =>
    exact ⟨by simpa using readsRules_append readsRules_inputPrelude readsRules_dropText, by simp⟩
  | false =>
    obtain ⟨hread, hneed⟩ :=
      readsRules_pushUserDrops (·.wantsIn) compose.users readsRules_inputPrelude
    exact ⟨by simpa using hread, by simpa using hneed⟩

theorem readsChains_output {text : String} {rules : List Nftables.Rule}
    (hrules : ReadsRules text rules) :
    ReadsChains ("  chain " ++ nftChain ++ " \x7b\n" ++
      "type filter hook output priority filter; policy accept;\n" ++ text ++ "  \x7d\n")
      [⟨nftChain, .output, .accept, rules⟩] := by
  refine readsChains_of_readsRules (endsLine_of_getLast? (by decide))
    (endsLine_of_getLast? (by decide)) (fun table chains ↦ ?_) hrules (by decide)
  have hlines : scriptLines ("  chain " ++ nftChain ++ " \x7b\n" ++
      "type filter hook output priority filter; policy accept;\n") =
      [["chain", "output", "\x7b"],
        ["type", "filter", "hook", "output", "priority", "filter;", "policy", "accept;"]] := by
    decide
  rw [hlines]
  rfl

theorem readsChains_input {text : String} {rules : List Nftables.Rule}
    (hrules : ReadsRules text rules) :
    ReadsChains ("  chain input \x7b\n" ++
      "type filter hook input priority filter; policy accept;\n" ++ text ++ "  \x7d\n")
      [⟨"input", .input, .accept, rules⟩] := by
  refine readsChains_of_readsRules (endsLine_of_getLast? (by decide))
    (endsLine_of_getLast? (by decide)) (fun table chains ↦ ?_) hrules (by decide)
  have hlines : scriptLines ("  chain input \x7b\n" ++
      "type filter hook input priority filter; policy accept;\n") =
      [["chain", "input", "\x7b"],
        ["type", "filter", "hook", "input", "priority", "filter;", "policy", "accept;"]] := by
    decide
  rw [hlines]
  rfl

end Reading

/-- The composed script is empty exactly when no chain is needed. -/
theorem composeTrafficScript_eq_empty_iff (compose : TrafficCompose) :
    composeTrafficScript compose = "" ↔
      needsOutput compose = false ∧ needsInput compose = false := by
  have houtput := (readsRules_composeOutput compose).2
  have hinput := (readsRules_composeInput compose).2
  unfold composeTrafficScript
  dsimp only
  rw [houtput, hinput]
  constructor
  · intro hempty
    by_contra hneeded
    rw [if_neg (by simpa using hneeded)] at hempty
    exact absurd (String.append_eq_empty_iff.mp hempty).2 (by decide)
  · rintro ⟨hnoOutput, hnoInput⟩
    simp [hnoOutput, hnoInput]

/-- A composed script that is not empty declares the composed table. Assumes: a chain is needed. -/
theorem parseScript_composeTrafficScript {compose : TrafficCompose}
    (hneeded : composeTrafficScript compose ≠ "") :
    parseScript (composeTrafficScript compose) = some (composedTable compose) := by
  obtain ⟨houtput, hneedOutput⟩ := readsRules_composeOutput compose
  obtain ⟨hinput, hneedInput⟩ := readsRules_composeInput compose
  rw [ne_eq, composeTrafficScript_eq_empty_iff] at hneeded
  unfold composeTrafficScript
  dsimp only
  rw [hneedOutput, hneedInput, if_neg (by simpa using hneeded)]
  refine parseScript_of_readsChains (endsLine_of_getLast? (by decide)) (by decide) ?_ (by decide)
  refine readsChains_append ?_ ?_
  · split_ifs
    · exact readsChains_output houtput
    · exact readsChains_empty
  · split_ifs
    · exact readsChains_input hinput
    · exact readsChains_empty

end Nft

end InterFire
