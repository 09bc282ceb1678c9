import InterFire.Policy

/-!
# Handling a connect event

`handle_event` of `crates/interfire-daemon/src/observe.rs` on the locks of `Shared` that it takes.
It has four critical sections: the decision under the five policy locks, the insertion of the
pending verdict, the statistics and the audit record. A poisoned policy lock ends it, a poisoned
lock of a later section skips that section.

The audit log is the list of the messages appended to it. The modes and the traffic preferences of
`Shared` are not touched here.
-/

set_option autoImplicit false
set_option relaxedAutoImplicit false

namespace InterFire

/-- The locks under which an event is decided. -/
structure PolicyLocks where
  rules : Mutex RuleSet
  processCache : Mutex ProcessCache
  prompts : Mutex PromptQueue
  dns : Mutex DnsCache
  recent : Mutex RecentConnects

namespace PolicyLocks

/-- Take the five locks, in the order of the source. -/
def lock (locks : PolicyLocks) : Option PolicyState := do
  let rules ← locks.rules.lock
  let cache ← locks.processCache.lock
  let prompts ← locks.prompts.lock
  let dns ← locks.dns.lock
  let recent ← locks.recent.lock
  return { rules, cache, prompts, dns, recent }

/-- Release the five locks with new values. -/
def store (locks : PolicyLocks) (state : PolicyState) : PolicyLocks :=
  { rules := locks.rules.store state.rules
    processCache := locks.processCache.store state.cache
    prompts := locks.prompts.store state.prompts
    dns := locks.dns.store state.dns
    recent := locks.recent.store state.recent }

end PolicyLocks

/-- The state that the daemon's threads share, as far as the verdict path uses it. -/
structure Shared extends PolicyLocks where
  pending : Mutex PendingTable
  stats : Mutex StatsStore
  audit : Mutex (List String)

namespace Observe

/-- Decide the event under the policy locks. No decision is a poisoned lock. -/
def decideSection (clock : DecideClock) (reads : ProcReads) (event : TcpConnectEvent)
    (shared : Shared) : Option (Shared × Decision) := do
  let policy ← shared.toPolicyLocks.lock
  let (policy, decision) := Policy.decide clock reads event policy
  return ({ shared with toPolicyLocks := shared.toPolicyLocks.store policy }, decision)

/-- Store the pending verdict of a decision. -/
def pendingSection (expireNow stampNow : Instant) (decision : Decision) (shared : Shared) :
    Shared :=
  match shared.pending.lock with
  | some pending =>
    let pending := pending.insert expireNow stampNow decision.key decision.packetVerdict
    { shared with pending := shared.pending.store pending }
  | none => shared

/-- Count a decision. -/
def statsSection (decision : Decision) (shared : Shared) : Shared :=
  match shared.stats.lock with
  | some stats =>
    let stats := match decision.stats with
      | some hit => stats.record hit
      | none => stats.recordUnattributedDeny
    { shared with stats := shared.stats.store stats }
  | none => shared

/-- The audit record of a decision. -/
def auditMessage (decision : Decision) : String :=
  let outcome := decision.stats.elim "deny" ConnectStats.verdict
  "connect port=" ++ toString decision.key.port.toNat ++ " attributed=" ++
    toString decision.attributed ++ " outcome=" ++ outcome

def auditSection (decision : Decision) (shared : Shared) : Shared :=
  match shared.audit.lock with
  | some messages =>
    { shared with audit := shared.audit.store (messages ++ [auditMessage decision]) }
  | none => shared

/-- The whole handler, run without interruption. -/
def handleEvent (clock : DecideClock) (expireNow stampNow : Instant) (reads : ProcReads)
    (event : TcpConnectEvent) (shared : Shared) : Shared :=
  match decideSection clock reads event shared with
  | none => shared
  | some (shared, decision) =>
    auditSection decision
      (statsSection decision (pendingSection expireNow stampNow decision shared))

/-! ### What the sections do to the pending table -/

@[simp] theorem pending_statsSection (decision : Decision) (shared : Shared) :
    (statsSection decision shared).pending = shared.pending := by
  unfold statsSection
  split <;> rfl

@[simp] theorem pending_auditSection (decision : Decision) (shared : Shared) :
    (auditSection decision shared).pending = shared.pending := by
  unfold auditSection
  split <;> rfl

/-- Deciding leaves the pending table alone. Assumes: the decision was made. -/
theorem pending_decideSection {clock : DecideClock} {reads : ProcReads} {event : TcpConnectEvent}
    {shared after : Shared} {decision : Decision}
    (hdecide : decideSection clock reads event shared = some (after, decision)) :
    after.pending = shared.pending := by
  simp only [decideSection, Option.bind_eq_bind, Option.bind_eq_some_iff, Option.pure_def,
    Option.some.injEq, Prod.mk.injEq] at hdecide
  obtain ⟨policy, _, rfl, _⟩ := hdecide
  rfl

/-- A stored decision is an insertion into the pending table. Assumes: no poison. -/
theorem pending_pendingSection (expireNow stampNow : Instant) (decision : Decision)
    {shared : Shared} (hclean : shared.pending.poisoned = false) :
    (pendingSection expireNow stampNow decision shared).pending =
      shared.pending.store (shared.pending.value.insert expireNow stampNow decision.key
        decision.packetVerdict) := by
  simp [pendingSection, Mutex.lock_eq hclean]

end Observe

end InterFire
