import InterFire.Enforcement
import InterFire.Library.Run

/-!
# Serving the queue

The thread that serves the queue (`nfqueue_live.rs`, `nfqueue.rs`): it binds the queue, marks it
bound, applies the modes of the files with `apply_modes`, and then receives packets and returns
verdicts until an error ends it. An error at any point marks the queue degraded, and nothing else is
done: the table is left as it is. A run interleaves these steps with requests and with restarts of
the daemon, every `nft` command going through.

A queue rule should be installed only while the queue is bound (`QueueServed`).
`hasQueueRule_tableAction` says that a request installs one only then, and `queue_rule_served_iff`
that a run has the property throughout exactly when no startup and no error of the serving loop
finds a queue rule installed.
-/

set_option autoImplicit false
set_option relaxedAutoImplicit false

namespace InterFire

open Nftables Nft

/-! ### The daemon -/

/-- Where the queue thread is. -/
inductive QueuePhase
  | starting
  | bound
  | serving
  | ended
  deriving DecidableEq, Repr

/-- The daemon: its modes and table, and its queue thread. -/
structure Daemon where
  state : Enforcement
  phase : QueuePhase

/-- The modes of a daemon that starts with given files, over the table it finds. -/
def Daemon.startup (files : Directory) (table : Option Table) : Daemon :=
  { state :=
      { files, paused := EnforcementMode.load files = .paused,
        machineTraffic := TrafficMode.load files TrafficMode.machineName, bindState := .none,
        table }
    phase := .starting }

/-- A step of the daemon. A request carries how its file store ends. -/
inductive DaemonOp
  | startup
  | bind
  | bindFails
  | applyModes
  | serve
  | loopFails
  | request (store : StoreOutcome) (sequence : ℕ) (request : ModeRequest)
  deriving DecidableEq, Repr

/-- One step of the daemon; the queue thread takes its steps in their order. -/
def Daemon.step (daemon : Daemon) : DaemonOp → Daemon
  | .startup => startup daemon.state.files daemon.state.table
  | .bind =>
    match daemon.phase with
    | .starting => ⟨{ daemon.state with bindState := .nfqueue }, .bound⟩
    | _ => daemon
  | .bindFails =>
    match daemon.phase with
    | .starting => ⟨{ daemon.state with bindState := .degraded }, .ended⟩
    | _ => daemon
  | .applyModes =>
    match daemon.phase with
    | .bound =>
      let files := daemon.state.files
      ⟨{ daemon.state with
        table := InterFire.applyModes .success (TrafficMode.load files TrafficMode.machineName)
          (TrafficMode.loadUserBlocks files) (EnforcementMode.load files) true
          daemon.state.table }, .serving⟩
    | _ => daemon
  | .serve => daemon
  | .loopFails =>
    match daemon.phase with
    | .serving => ⟨{ daemon.state with bindState := .degraded }, .ended⟩
    | _ => daemon
  | .request store sequence request =>
    { daemon with state := (daemon.state.handle ⟨store, sequence, .success⟩ request).1 }

/-- A queue rule is installed only while the queue is bound. -/
def QueueServed (daemon : Daemon) : Prop :=
  HasQueueRule nfqueueNum daemon.state.table → daemon.state.bindState = .nfqueue

/-! ### Which tables queue -/

theorem not_hasQueueRule_none (number : ℕ) : ¬ HasQueueRule number none := by
  rintro ⟨owned, howned, _⟩
  cases howned

/-- The rules for users do not queue. Assumes: the rule is one. -/
theorem not_queue_of_user {users : List UInt32} {rule : Nftables.Rule} {number : ℕ}
    (hrule : rule ∈ users.map userDropRule) : rule.verdict ≠ .queue number := by
  obtain ⟨uid, _, rfl⟩ := List.mem_map.mp hrule
  exact nofun

/-- The output rules queue only when the queue is bound. Assumes: the rule is one and queues. -/
theorem queueBound_of_outputRules {compose : TrafficCompose} {rule : Nftables.Rule} {number : ℕ}
    (hrule : rule ∈ outputRules compose) (hverdict : rule.verdict = .queue number) :
    compose.queueBound = true := by
  unfold outputRules at hrule
  rw [List.mem_append, List.mem_cons, List.mem_singleton] at hrule
  rcases hrule with (rfl | rfl) | hblocking
  · cases hverdict
  · cases hverdict
  · split_ifs at hblocking with hmachine hqueue
    · rw [List.mem_singleton.mp hblocking] at hverdict
      cases hverdict
    · exact (Bool.and_eq_true_iff.mp hqueue).2
    · rw [List.append_nil] at hblocking
      exact absurd hverdict (not_queue_of_user hblocking)

/-- The input rules do not queue. Assumes: the rule is one. -/
theorem not_queue_of_inputRules {compose : TrafficCompose} {rule : Nftables.Rule} {number : ℕ}
    (hrule : rule ∈ inputRules compose) : rule.verdict ≠ .queue number := by
  unfold inputRules at hrule
  rw [List.mem_append, List.mem_cons, List.mem_singleton] at hrule
  rcases hrule with (rfl | rfl) | hblocking
  · exact nofun
  · exact nofun
  · split_ifs at hblocking with hmachine
    · rw [List.mem_singleton.mp hblocking]
      exact nofun
    · exact not_queue_of_user hblocking

/-- A composed table queues only when its queue is bound. Assumes: it has a queue rule. -/
theorem queueBound_of_composedTable {compose : TrafficCompose} {number : ℕ}
    (hqueue : HasQueueRule number (some (composedTable compose))) : compose.queueBound = true := by
  obtain ⟨owned, howned, chain, hchain, rule, hrule, hverdict⟩ := hqueue
  obtain rfl := Option.some.inj howned
  rcases List.mem_append.mp hchain with houtput | hinput
  · split_ifs at houtput
    · rw [List.mem_singleton.mp houtput] at hrule
      exact queueBound_of_outputRules hrule hverdict
    · cases houtput
  · split_ifs at hinput
    · rw [List.mem_singleton.mp hinput] at hrule
      exact absurd hverdict (not_queue_of_inputRules hrule)
    · cases hinput

/-- Installing a composed table installs a queue rule only when the queue is bound. Assumes: it does
install one. -/
theorem queueBound_of_installComposed {compose : TrafficCompose} {prior : Option Table}
    {number : ℕ} (hqueue : HasQueueRule number (installComposed .success compose prior).1) :
    compose.queueBound = true := by
  unfold installComposed at hqueue
  dsimp only at hqueue
  split_ifs at hqueue with hempty
  · exact absurd hqueue (not_hasQueueRule_none number)
  · simp only [loadScript, NftOutcomes.success, Nft.remove, load,
      parseScript_composeTrafficScript hempty] at hqueue
    exact queueBound_of_composedTable hqueue

/-- What a request applies has a queue rule only when the queue is bound. Assumes: it has one. -/
theorem hasQueueRule_tableAction {machine : TrafficPreference}
    {users : List (UInt32 × TrafficPreference)} {mode : EnforcementMode} {queueBound : Bool}
    {prior : Option Table} {number : ℕ}
    (hqueue : HasQueueRule number
      ((tableAction machine users mode queueBound).run .success prior).1) : queueBound = true := by
  unfold tableAction at hqueue
  dsimp only at hqueue
  split_ifs at hqueue with hremove hinstall hbound
  · exact absurd hqueue (not_hasQueueRule_none number)
  · exact hbound
  · exact absurd hqueue (not_hasQueueRule_none number)
  · exact queueBound_of_installComposed hqueue

/-! ### Runs -/

/-- The bind state is that of the queue thread. -/
def PhaseMatches (daemon : Daemon) : Prop :=
  match daemon.phase with
  | .starting => daemon.state.bindState = .none
  | .bound => daemon.state.bindState = .nfqueue
  | .serving => daemon.state.bindState = .nfqueue
  | .ended => daemon.state.bindState = .degraded

/-- A request does not change the bind state. -/
theorem bindState_handle (state : Enforcement) (outcomes : RequestOutcomes)
    (request : ModeRequest) : (state.handle outcomes request).1.bindState = state.bindState := by
  rcases state.handle_cases outcomes request with ⟨_, files, error, hhandle⟩ | ⟨_, hhandle⟩
  · rw [hhandle]
  · rw [hhandle]
    exact state.stored_bindState request outcomes.sequence

/-- After a request a queue rule was there before or the queue is bound. Assumes: the commands go
through and there is a queue rule. -/
theorem hasQueueRule_handle {state : Enforcement} {store : StoreOutcome} {sequence : ℕ}
    {request : ModeRequest} {number : ℕ}
    (hqueue : HasQueueRule number (state.handle ⟨store, sequence, .success⟩ request).1.table) :
    HasQueueRule number state.table ∨ state.bindState = .nfqueue := by
  rcases state.handle_cases ⟨store, sequence, .success⟩ request with
    ⟨_, files, error, hhandle⟩ | ⟨_, hhandle⟩
  · rw [hhandle] at hqueue
    exact .inl hqueue
  · rw [hhandle] at hqueue
    have hbound := hasQueueRule_tableAction hqueue
    rw [Enforcement.queueBound, Enforcement.stored_bindState, decide_eq_true_eq] at hbound
    exact .inr hbound

/-- A step that can leave a queue rule to nobody finds none: a startup, or an error of the serving
loop. -/
def FindsNoQueueRule (daemon : Daemon) (op : DaemonOp) : Prop :=
  op = .startup ∨ (op = .loopFails ∧ daemon.phase = .serving) →
    ¬ HasQueueRule nfqueueNum daemon.state.table

/-- Every step keeps the bind state with the queue thread. -/
theorem phaseMatches_step {daemon : Daemon} (hphase : PhaseMatches daemon) (op : DaemonOp) :
    PhaseMatches (daemon.step op) := by
  cases op with
  | startup => rfl
  | bind =>
    cases hcurrent : daemon.phase with
    | starting =>
      simp only [Daemon.step, hcurrent]
      rfl
    | _ => simpa only [Daemon.step, hcurrent] using hphase
  | bindFails =>
    cases hcurrent : daemon.phase with
    | starting =>
      simp only [Daemon.step, hcurrent]
      rfl
    | _ => simpa only [Daemon.step, hcurrent] using hphase
  | applyModes =>
    cases hcurrent : daemon.phase with
    | bound =>
      simp only [PhaseMatches, hcurrent] at hphase
      simpa only [Daemon.step, hcurrent, PhaseMatches] using hphase
    | _ => simpa only [Daemon.step, hcurrent] using hphase
  | serve => exact hphase
  | loopFails =>
    cases hcurrent : daemon.phase with
    | serving =>
      simp only [Daemon.step, hcurrent]
      rfl
    | _ => simpa only [Daemon.step, hcurrent] using hphase
  | request store sequence request =>
    simpa only [PhaseMatches, Daemon.step, bindState_handle] using hphase

/-- A step keeps queue rules to bound queues. Assumes: they were, the bind state is that of the
queue thread, and a startup or an error of the serving loop finds no queue rule. -/
theorem queueServed_step {daemon : Daemon} (hserved : QueueServed daemon)
    (hphase : PhaseMatches daemon) {op : DaemonOp} (hfinds : FindsNoQueueRule daemon op) :
    QueueServed (daemon.step op) := by
  intro hqueue
  cases op with
  | startup => exact absurd hqueue (hfinds (.inl rfl))
  | serve => exact hserved hqueue
  | request store sequence request =>
    rw [Daemon.step, bindState_handle]
    rcases hasQueueRule_handle hqueue with hbefore | hbound
    · exact hserved hbefore
    · exact hbound
  | bind =>
    cases hcurrent : daemon.phase with
    | starting => simp only [Daemon.step, hcurrent]
    | _ =>
      simp only [Daemon.step, hcurrent] at hqueue ⊢
      exact hserved hqueue
  | bindFails =>
    cases hcurrent : daemon.phase with
    | starting =>
      -- Before the queue is bound there was no queue rule.
      simp only [Daemon.step, hcurrent] at hqueue
      have hbound := hserved hqueue
      simp only [PhaseMatches, hcurrent] at hphase
      rw [hphase] at hbound
      cases hbound
    | _ =>
      simp only [Daemon.step, hcurrent] at hqueue ⊢
      exact hserved hqueue
  | applyModes =>
    cases hcurrent : daemon.phase with
    | bound =>
      simp only [PhaseMatches, hcurrent] at hphase
      simpa only [Daemon.step, hcurrent] using hphase
    | _ =>
      simp only [Daemon.step, hcurrent] at hqueue ⊢
      exact hserved hqueue
  | loopFails =>
    cases hcurrent : daemon.phase with
    | serving =>
      simp only [Daemon.step, hcurrent] at hqueue
      exact absurd hqueue (hfinds (.inr ⟨rfl, hcurrent⟩))
    | _ =>
      simp only [Daemon.step, hcurrent] at hqueue ⊢
      exact hserved hqueue

/-- A step that finds a queue rule where it must not leaves it to nobody. Assumes: it does find
one. -/
theorem not_queueServed_step {daemon : Daemon} {op : DaemonOp}
    (hfinds : ¬ FindsNoQueueRule daemon op) : ¬ QueueServed (daemon.step op) := by
  rw [FindsNoQueueRule, Classical.not_imp, not_not] at hfinds
  obtain ⟨rfl | ⟨rfl, hserving⟩, hqueue⟩ := hfinds
  · intro hserved
    cases hserved hqueue
  · intro hserved
    simp only [QueueServed, Daemon.step, hserving] at hserved
    cases hserved hqueue

/-- Along a run the queue rule is installed only while the queue is bound, exactly when the daemon
starts without one and no later startup and no error of the serving loop finds one. -/
theorem queue_rule_served_iff (files : Directory) (table : Option Table) (ops : List DaemonOp) :
    (∀ index, QueueServed (Run.stateAt Daemon.step (Daemon.startup files table) ops index)) ↔
      ¬ HasQueueRule nfqueueNum table ∧
        ∀ index op, ops[index]? = some op →
          FindsNoQueueRule (Run.stateAt Daemon.step (Daemon.startup files table) ops index) op := by
  constructor
  · intro hserved
    refine ⟨fun hqueue ↦ ?_, fun index op hop ↦ ?_⟩
    · cases hserved 0 hqueue
    · by_contra hfinds
      have hafter := hserved (index + 1)
      rw [Run.stateAt_succ _ _ _ hop] at hafter
      exact not_queueServed_step hfinds hafter
  · rintro ⟨hstart, hfinds⟩ index
    have hinvariant := Run.stateAt_invariant_of_steps Daemon.step (Daemon.startup files table) ops
      (fun daemon ↦ QueueServed daemon ∧ PhaseMatches daemon)
      ⟨fun hqueue ↦ absurd hqueue hstart, rfl⟩
      (fun daemon op hbefore hallowed ↦ ⟨queueServed_step hbefore.1 hbefore.2 hallowed,
        phaseMatches_step hbefore.2 op⟩)
      (fun index _ op hop ↦ hfinds index op hop) index le_rfl
    exact hinvariant.1

/-- The files of a daemon whose rules are active. -/
def activeFiles : Directory := FiniteMap.empty.insert EnforcementMode.modeName "active\n"

/-- The daemon after it bound the queue, applied its modes, served a packet and failed to receive
the next. -/
def failedLoop : Daemon :=
  Run.stateAt Daemon.step (Daemon.startup activeFiles none)
    [.bind, .applyModes, .serve, .loopFails] 4

/-- The rules are active, the queue is bound, and receiving from it fails: the queue is degraded and
the queue table stays. -/
theorem failed_loop_leaves_queue_rule :
    failedLoop.state.bindState = .degraded ∧ failedLoop.state.table = some ownedTable ∧
      ¬ QueueServed failedLoop := by
  have htable : failedLoop.state.table = some ownedTable := by
    have hmode : EnforcementMode.load activeFiles = .active := by decide
    have hmachine : TrafficMode.load activeFiles TrafficMode.machineName = .open := by decide
    have husers : TrafficMode.loadUserBlocks activeFiles = [] := by decide
    have happlied : failedLoop.state.table = applyModes .success
        (TrafficMode.load activeFiles TrafficMode.machineName)
        (TrafficMode.loadUserBlocks activeFiles) (EnforcementMode.load activeFiles) true none := by
      simp only [failedLoop, Run.stateAt, List.take, List.foldl, Daemon.startup, Daemon.step]
    rw [happlied, hmode, hmachine, husers]
    simp [applyModes, TrafficPreference.isBlocked, install, loadScript, NftOutcomes.success,
      Nft.remove, parseScript_ownedTableScript, load]
  have hqueue : HasQueueRule nfqueueNum failedLoop.state.table := by
    rw [htable]
    exact ⟨ownedTable, rfl, _, List.mem_singleton.mpr rfl, queueRule, by decide, rfl⟩
  refine ⟨rfl, htable, fun hserved ↦ ?_⟩
  cases hserved hqueue

end InterFire
