import Mathlib.Order.Nat
import Mathlib.Tactic.Choose
import InterFire.Library.LockOrder

/-!
# The locks of the daemon's threads

Every thread of the daemon as the sequence of lock steps its code makes. A connection thread runs
one handler of `crates/interfire-daemon/src/ipc.rs`, the observation thread handles one event after
another (`observe.rs`), the queue thread looks up one packet after another (`nfqueue_live.rs`), and
a subscriber thread removes itself from the audit log when its stream ends. The branches a handler
can take (an unauthorised peer, a refused argument, a failed file write, a poisoned lock) are
alternative lock programs; a lock that is poisoned is taken and given back at once.

`deadlock_free_iff` says which families of threads can never block each other: exactly those in
which no connection lists processes while there is an observation thread. The two take the rules
and the process cache in opposite orders.
-/

set_option autoImplicit false
set_option relaxedAutoImplicit false

namespace InterFire

open LockOrder

/-- The mutexes of the shared state. -/
inductive Lock
  | rules
  | processCache
  | recent
  | prompts
  | dns
  | pending
  | audit
  | stats
  | machineTraffic
  deriving DecidableEq, Repr

/-- The requests a connection can make. -/
inductive Handler
  | ping
  | status
  | ruleList
  | ruleDelete
  | ruleAdd
  | promptList
  | promptAnswer
  | dnsList
  | dnsNote
  | auditTail
  | auditSubscribe
  | processList
  | networkStatus
  | networkInstall
  | networkRemove
  | pause
  | resume
  | trafficBlock
  | trafficUnblock
  | statsSummary
  | statsHosts
  | statsProcs
  | statsAddrs
  | statsPorts
  | statsUsers
  deriving DecidableEq, Repr

namespace Locks

/-- The programs of a section that takes locks one inside the other and returns early at the first
poisoned one. -/
def guarded (locks : List Lock) : List (List (Action Lock)) :=
  (List.range locks.length).map fun index ↦ nested (locks.take (index + 1))

/-- The lock programs of `mutate` and of the other handlers that check the peer or an argument
first and then take one lock. -/
def checked (lock : Lock) : List (List (Action Lock)) := [] :: guarded [lock]

/-- The lock programs of `pause` and `resume`: a failure before the table is applied, or the read of
the machine preference in `reapply_table`. -/
def enforcementMutate : List (List (Action Lock)) := [[], nested [.machineTraffic]]

/-- The lock programs of `traffic_block` and `traffic_unblock`: a failure before any lock, the user
scope, and the machine scope, which also stores the machine preference. -/
def trafficMutate : List (List (Action Lock)) :=
  [[], nested [.machineTraffic], nested [.machineTraffic] ++ nested [.machineTraffic]]

/-- The lock programs of each request. -/
def handlerPrograms : Handler → List (List (Action Lock))
  | .ping => [[]]
  | .status =>
    [nested [.machineTraffic] ++ nested [.machineTraffic] ++ nested [.machineTraffic]]
  | .ruleList => guarded [.rules]
  | .ruleDelete => checked .rules
  | .ruleAdd => checked .rules
  | .promptList => guarded [.prompts]
  | .promptAnswer => (nested [.prompts] ++ nested [.rules]) :: checked .prompts
  | .dnsList => guarded [.dns]
  | .dnsNote => checked .dns
  | .auditTail => guarded [.audit]
  | .auditSubscribe => checked .audit
  | .processList => guarded [.processCache, .recent, .rules]
  | .networkStatus => [[]]
  | .networkInstall => enforcementMutate
  | .networkRemove => enforcementMutate
  | .pause => enforcementMutate
  | .resume => enforcementMutate
  | .trafficBlock => trafficMutate
  | .trafficUnblock => trafficMutate
  | .statsSummary => guarded [.stats, .rules]
  | .statsHosts => guarded [.stats]
  | .statsProcs => guarded [.stats]
  | .statsAddrs => guarded [.stats]
  | .statsPorts => guarded [.stats]
  | .statsUsers => guarded [.stats]

/-- The locks under which an event is decided, in the order in which `handle_event` takes them. -/
def policyLocks : List Lock := [.rules, .processCache, .prompts, .dns, .recent]

/-- The decision, then the pending table, the statistics and the audit log. -/
def handleEventProgram : List (Action Lock) :=
  nested policyLocks ++ nested [.pending] ++ nested [.stats] ++ nested [.audit]

/-- The lock programs of `handle_event`: the whole handler, or an early return at a poisoned policy
lock. -/
def handleEventPrograms : List (List (Action Lock)) :=
  handleEventProgram :: guarded policyLocks

end Locks

open Locks

/-- What a thread of the daemon does. -/
inductive ThreadRole
  | observation
  | queue
  | subscriber
  | connection (handler : Handler)
  deriving DecidableEq, Repr

/-- The lock programs of a thread: any number of events for the observation thread, any number of
attempts for the queue thread. -/
inductive ThreadRole.Runs : ThreadRole → List (Action Lock) → Prop
  | observation (events : List (List (Action Lock)))
    (hevents : ∀ event ∈ events, event ∈ handleEventPrograms) : Runs .observation events.flatten
  | queue (attempts : ℕ) : Runs .queue (List.replicate attempts (nested [.pending])).flatten
  | subscriber : Runs .subscriber (nested [.audit])
  | connection (handler : Handler) {program : List (Action Lock)}
    (hprogram : program ∈ handlerPrograms handler) : Runs (.connection handler) program

/-- Every role has a program. -/
theorem ThreadRole.exists_runs (role : ThreadRole) : ∃ program, role.Runs program := by
  cases role with
  | observation => exact ⟨_, .observation [] (by simp)⟩
  | queue => exact ⟨_, .queue 0⟩
  | subscriber => exact ⟨_, .subscriber⟩
  | connection handler =>
    have hprogram : ∃ program, program ∈ handlerPrograms handler := by
      cases handler <;> exact ⟨_, List.mem_cons_self⟩
    obtain ⟨program, hprogram⟩ := hprogram
    exact ⟨program, .connection handler hprogram⟩

/-! ### Two lock orders -/

/-- The order that events respect: the statistics, then the policy locks as `handle_event` takes
them. -/
def eventRank : Lock → ℕ
  | .stats => 0
  | .rules => 1
  | .processCache => 2
  | .prompts => 3
  | .dns => 4
  | .recent => 5
  | .pending => 6
  | .audit => 7
  | .machineTraffic => 8

/-- The order that connections respect: the process cache and the recent destinations come before
the rules. -/
def connectionRank : Lock → ℕ
  | .stats => 0
  | .processCache => 1
  | .recent => 2
  | .rules => 3
  | .prompts => 4
  | .dns => 5
  | .pending => 6
  | .audit => 7
  | .machineTraffic => 8

/-- Every program of `handle_event` respects the event order and gives back what it takes. -/
theorem ordered_handleEventPrograms : ∀ program ∈ handleEventPrograms,
    Ordered eventRank [] program ∧ heldAfter [] program = [] := by
  decide

/-- Every handler but the process list respects the event order. Assumes: another handler. -/
theorem ordered_event_of_ne {handler : Handler} (hne : handler ≠ .processList) :
    ∀ program ∈ handlerPrograms handler, Ordered eventRank [] program := by
  cases handler with
  | processList => exact absurd rfl hne
  | _ => decide

/-- Every handler respects the connection order. -/
theorem ordered_connection (handler : Handler) :
    ∀ program ∈ handlerPrograms handler, Ordered connectionRank [] program := by
  cases handler <;> decide

/-- Attempts of the queue thread respect every order. -/
theorem ordered_queue (rank : Lock → ℕ) (attempts : ℕ) :
    Ordered rank [] (List.replicate attempts (nested [.pending])).flatten := by
  refine ordered_flatten fun program hmem ↦ ?_
  rw [List.eq_of_mem_replicate hmem]
  exact ⟨⟨by simp, trivial⟩, rfl⟩

/-- A thread that does not list processes respects the event order. Assumes: the role is not the
process list, and the program is one of the role. -/
theorem ordered_event_of_runs {role : ThreadRole} (hne : role ≠ .connection .processList)
    {program : List (Action Lock)} (hruns : role.Runs program) : Ordered eventRank [] program := by
  cases hruns with
  | observation events hevents =>
    exact ordered_flatten fun event hmem ↦ ordered_handleEventPrograms event (hevents event hmem)
  | queue attempts => exact ordered_queue eventRank attempts
  | subscriber => decide
  | connection handler hprogram =>
    exact ordered_event_of_ne (fun heq ↦ hne (heq ▸ rfl)) program hprogram

/-- A thread that does not observe respects the connection order. Assumes: the role is not the
observation, and the program is one of the role. -/
theorem ordered_connection_of_runs {role : ThreadRole} (hne : role ≠ .observation)
    {program : List (Action Lock)} (hruns : role.Runs program) :
    Ordered connectionRank [] program := by
  cases hruns with
  | observation events hevents => exact absurd rfl hne
  | queue attempts => exact ordered_queue connectionRank attempts
  | subscriber => decide
  | connection handler hprogram => exact ordered_connection handler program hprogram

/-! ### The inversion -/

section Inversion

variable {ι : Type} [DecidableEq ι] (roles : ι → ThreadRole)

/-- No interleaving of the threads reaches a state in which threads wait for each other in a
circle, whatever branches their handlers take. -/
def DeadlockFree : Prop :=
  ∀ programs : ι → List (Action Lock), (∀ thread, (roles thread).Runs (programs thread)) →
    ∀ system, Reachable programs system → ¬ Deadlocked system

/-- Some total order of the locks is respected by every program of every thread. -/
def RespectsOrder : Prop :=
  ∃ rank : Lock → ℕ, Function.Injective rank ∧
    ∀ thread program, (roles thread).Runs program → Ordered rank [] program

theorem deadlockFree_of_respectsOrder (horder : RespectsOrder roles) : DeadlockFree roles := by
  obtain ⟨rank, _, hordered⟩ := horder
  intro programs hprograms system hreachable
  exact not_deadlocked_of_ordered (fun thread ↦ hordered thread _ (hprograms thread)) hreachable

/-- An observation thread that holds the rules and a process list that holds the process cache wait
for each other. Assumes: the family has both. -/
theorem exists_deadlock (observer lister : ι) (hobserver : roles observer = .observation)
    (hlister : roles lister = .connection .processList) : ¬ DeadlockFree roles := by
  intro hfree
  have hne : lister ≠ observer := by
    rintro rfl
    rw [hobserver] at hlister
    cases hlister
  have hobserves : ThreadRole.observation.Runs handleEventProgram := by
    have hone := ThreadRole.Runs.observation [handleEventProgram] (by simp [handleEventPrograms])
    simpa using hone
  have hlists : (ThreadRole.connection .processList).Runs
      (nested [.processCache, .recent, .rules]) := .connection _ (by decide)
  obtain ⟨programs, hevent, hlisting, hruns⟩ : ∃ programs : ι → List (Action Lock),
      programs observer = handleEventProgram ∧
      programs lister = nested [.processCache, .recent, .rules] ∧
      ∀ thread, (roles thread).Runs (programs thread) := by
    choose others hothers using fun thread ↦ (roles thread).exists_runs
    refine ⟨Function.update (Function.update others observer handleEventProgram) lister
      (nested [.processCache, .recent, .rules]), ?_, Function.update_self .., fun thread ↦ ?_⟩
    · rw [Function.update_of_ne hne.symm, Function.update_self]
    · by_cases hthread : thread = lister
      · rw [hthread, hlister, Function.update_self]
        exact hlists
      · rw [Function.update_of_ne hthread]
        by_cases hother : thread = observer
        · rw [hother, hobserver, Function.update_self]
          exact hobserves
        · rw [Function.update_of_ne hother]
          exact hothers thread
  -- The observer stops inside the rules and the lister inside the process cache.
  have hholdsRules : programs observer =
      [Lock.rules].map .acquire ++ .acquire .processCache :: handleEventProgram.drop 2 := hevent
  have hholdsCache : programs lister = [Lock.processCache, .recent].map .acquire ++
      .acquire .rules :: (nested [.processCache, .recent, .rules]).drop 3 := hlisting
  obtain ⟨system, hreachable, hdeadlocked⟩ := deadlock_of_inversion hne.symm hholdsRules hholdsCache
    (by decide) (by decide) (by decide) (by decide) (by decide)
  exact hfree programs hruns system hreachable hdeadlocked

/-- The daemon's threads cannot block each other, and there is a total order of the locks that all
of them respect, exactly when no connection lists processes or there is no observation thread. -/
theorem deadlock_free_iff :
    (DeadlockFree roles ↔ ¬ ((∃ thread, roles thread = .observation) ∧
      ∃ thread, roles thread = .connection .processList)) ∧
    (RespectsOrder roles ↔ DeadlockFree roles) := by
  have hnecessary : DeadlockFree roles → ¬ ((∃ thread, roles thread = .observation) ∧
      ∃ thread, roles thread = .connection .processList) := by
    rintro hfree ⟨⟨observer, hobserver⟩, lister, hlister⟩
    exact exists_deadlock roles observer lister hobserver hlister hfree
  have hsufficient : ¬ ((∃ thread, roles thread = .observation) ∧
      ∃ thread, roles thread = .connection .processList) → RespectsOrder roles := by
    intro hnot
    by_cases hobserved : ∃ thread, roles thread = .observation
    · refine ⟨eventRank, by intro first second; cases first <;> cases second <;> simp [eventRank],
        fun thread program hruns ↦ ordered_event_of_runs (fun hlist ↦ ?_) hruns⟩
      exact hnot ⟨hobserved, thread, hlist⟩
    · refine ⟨connectionRank,
        by intro first second; cases first <;> cases second <;> simp [connectionRank],
        fun thread program hruns ↦ ordered_connection_of_runs (fun hobserve ↦ ?_) hruns⟩
      exact hobserved ⟨thread, hobserve⟩
  exact ⟨⟨hnecessary, fun hnot ↦ deadlockFree_of_respectsOrder roles (hsufficient hnot)⟩,
    ⟨deadlockFree_of_respectsOrder roles, fun hfree ↦ hsufficient (hnecessary hfree)⟩⟩

end Inversion

/-- One event and one process list: the observation thread and a connection block each other. -/
theorem process_list_deadlocks :
    ¬ DeadlockFree fun thread : Bool ↦
      if thread then ThreadRole.connection .processList else .observation :=
  fun hfree ↦ exists_deadlock _ false true rfl rfl hfree

end InterFire
