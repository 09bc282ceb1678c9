import Mathlib.Data.Prod.Lex
import InterFire.Library.Ipv4

/-!
# Application-firewall rules

The rule language of `crates/interfire-rules`: a `Rule` constrains an executable and optionally the
protocol, direction, address, hostname and port of a connection, and a `RuleSet` answers with the
verdict of the matching rule of greatest `precedence`, or `Verdict.prompt` when none matches.
`RuleSet.insert` refuses a relative executable and a duplicate id, `RuleSet.remove` drops a rule by
id.

Only the matching half of the crate is here; the document store is not part of this module.
-/

set_option autoImplicit false
set_option relaxedAutoImplicit false

namespace InterFire

inductive Protocol
  | tcp
  | udp
  deriving DecidableEq, Repr

inductive Direction
  | outbound
  | inbound
  deriving DecidableEq, Repr

/-- What a rule says about a connection. -/
inductive Verdict
  | allow
  | deny
  | prompt
  deriving DecidableEq, Repr

inductive Scope
  | once
  | session
  | permanent
  deriving DecidableEq, Repr

/-- An address a rule or a connection names: the four octets of an IPv4 address or the bits of an
IPv6 address. -/
inductive IpAddr
  | v4 (octets : Octets)
  | v6 (bits : BitVec 128)
  deriving DecidableEq, Repr

structure Connection where
  executable : String
  protocol : Protocol
  direction : Direction
  address : IpAddr
  hostname : Option String
  port : UInt16
  deriving DecidableEq, Repr

structure Rule where
  id : UInt64
  executable : String
  protocol : Option Protocol
  direction : Option Direction
  address : Option IpAddr
  hostname : Option String
  port : Option UInt16
  verdict : Verdict
  scope : Scope
  deriving DecidableEq, Repr

namespace Rule

/-- Whether a constraint is absent or equal to the value of the connection. -/
def admits {α : Type} [DecidableEq α] (constraint : Option α) (value : α) : Bool :=
  constraint.all (· = value)

/-- Whether the rule applies to a connection. A hostname constraint needs a hostname. -/
def «matches» (rule : Rule) (connection : Connection) : Bool :=
  rule.executable = connection.executable &&
    admits rule.protocol connection.protocol &&
    admits rule.direction connection.direction &&
    admits rule.address connection.address &&
    admits rule.port connection.port &&
    rule.hostname.all fun name ↦ connection.hostname.any (· = name)

/-- The number of constraints the rule sets beyond its executable. -/
def constrained (rule : Rule) : ℕ :=
  [rule.protocol.isSome, rule.direction.isSome, rule.address.isSome, rule.hostname.isSome,
    rule.port.isSome].count true

/-- More constrained rules win; the id makes otherwise equal rules stable. -/
def precedence (rule : Rule) : ℕ ×ₗ ℕ := toLex (rule.constrained, rule.id.toNat)

end Rule

/-- The last of the elements with the greatest key. -/
def maxByKey {α β : Type} [LE β] [DecidableLE β] (key : α → β) : List α → Option α
  | [] => none
  | first :: rest =>
    some (rest.foldl (fun best next ↦ if key best ≤ key next then next else best) first)

/-- The reasons a rule is refused. -/
inductive RuleError
  | duplicateId (id : UInt64)
  | executableMustBeAbsolute
  deriving DecidableEq, Repr

structure RuleSet where
  rules : List Rule
  deriving DecidableEq, Repr

namespace RuleSet

/-- The set with no rule. -/
def default : RuleSet := ⟨[]⟩

/-- Whether a path starts with a slash. -/
def isAbsolute (path : String) : Bool := path.toList.head? = some '/'

/-- Append a rule with an absolute executable and an unused id. -/
def insert (set : RuleSet) (rule : Rule) : Except RuleError RuleSet :=
  if rule.executable = "" || !isAbsolute rule.executable then
    .error .executableMustBeAbsolute
  else if set.rules.any (·.id = rule.id) then
    .error (.duplicateId rule.id)
  else
    .ok ⟨set.rules ++ [rule]⟩

/-- Drop the rules with an id, and whether there was one. -/
def remove (set : RuleSet) (id : UInt64) : RuleSet × Bool :=
  let kept := set.rules.filter (·.id ≠ id)
  (⟨kept⟩, set.rules.length ≠ kept.length)

/-- The verdict of the matching rule of greatest precedence, otherwise a prompt. -/
def verdictFor (set : RuleSet) (connection : Connection) : Verdict :=
  match maxByKey Rule.precedence (set.rules.filter (·.matches connection)) with
  | some rule => rule.verdict
  | none => .prompt

end RuleSet

end InterFire
