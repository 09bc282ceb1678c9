import InterFire.QueueService
import InterFire.TableMeaning

/-!
# Stored blocks after a start

A daemon starts with the files of the last one and, after a reboot, without a table. `main` spawns
the queue thread unless it is told not to; the thread opens and binds the queue, sets it to fail
open, and only then reads the stored preferences and applies them. `stored_blocks_enforced_iff` says
when the stored blocks are in force once that is over: exactly when the queue was bound or no block
is stored.
-/

set_option autoImplicit false
set_option relaxedAutoImplicit false

namespace InterFire

open Nftables Nft

/-- How setting up the queue ends. -/
inductive QueueOutcome
  | openFails
  | bindFails
  | failOpenFails
  | done
  deriving DecidableEq, Repr

/-- What decides how a start goes: the option `--no-nfqueue` and the queue. -/
structure StartupConfiguration where
  skipNfqueue : Bool
  queue : QueueOutcome
  deriving DecidableEq, Repr

/-- The queue gets bound. -/
def StartupConfiguration.BindsQueue (configuration : StartupConfiguration) : Prop :=
  configuration.skipNfqueue = false ∧ configuration.queue = .done

/-- The steps of a start, up to the serving loop. -/
def StartupConfiguration.steps (configuration : StartupConfiguration) : List DaemonOp :=
  if configuration.skipNfqueue then []
  else
    match configuration.queue with
    | .openFails => [.bindFails]
    | .bindFails => [.bindFails]
    | .failOpenFails => [.bindFails]
    | .done => [.bind, .applyModes]

/-- The daemon once its start has completed. -/
def Daemon.started (configuration : StartupConfiguration) (files : Directory)
    (table : Option Table) : Daemon :=
  configuration.steps.foldl Daemon.step (Daemon.startup files table)

/-- The table that the script composed from the stored preferences installs. -/
def storedTable (files : Directory) : Option Table :=
  (installComposed .success
    { machine := TrafficMode.load files TrafficMode.machineName
      users := TrafficMode.loadUserBlocks files
      rulesActive := false
      queueBound := false } none).1

/-- After a start without a table every packet that the stored preferences require to be dropped is
dropped. -/
def StoredBlocksEnforced (configuration : StartupConfiguration) (files : Directory) : Prop :=
  ∀ packet, disposition (storedTable files) packet = .drop →
    disposition (Daemon.started configuration files none).state.table packet = .drop

/-- The stored preferences require exactly the blocked packets that open connections to be
dropped. -/
theorem disposition_storedTable_iff (files : Directory) (packet : Packet) :
    disposition (storedTable files) packet = .drop ↔ OpensTcp packet ∧
      Blocked (TrafficMode.load files TrafficMode.machineName) (TrafficMode.loadUserBlocks files)
        packet := by
  rw [storedTable, (disposition_installComposed _ none packet).1, decideRules_hookRules]
  by_cases hopens : OpensTcp packet
  · rw [if_neg (not_not.mpr hopens), and_iff_right hopens]
    exact drop_iff_of_blocked
  · rw [if_pos hopens]
    exact iff_of_false nofun fun hboth ↦ hopens hboth.1

/-- A start that binds the queue leaves the table that the stored modes mean. Assumes: it binds the
queue. -/
theorem disposition_started_of_bindsQueue {configuration : StartupConfiguration}
    (hbinds : configuration.BindsQueue) (files : Directory) (table : Option Table)
    (packet : Packet) :
    disposition (Daemon.started configuration files table).state.table packet =
      intended (TrafficMode.load files TrafficMode.machineName) (TrafficMode.loadUserBlocks files)
        (EnforcementMode.load files) .nfqueue packet := by
  have hsteps : configuration.steps = [.bind, .applyModes] := by
    simp [StartupConfiguration.steps, hbinds.1, hbinds.2]
  have hmeaning := (disposition_tableAction (TrafficMode.load files TrafficMode.machineName)
    (TrafficMode.loadUserBlocks files) (EnforcementMode.load files) .nfqueue table packet).1
  rw [Daemon.started, hsteps, ← hmeaning]
  simp only [List.foldl_cons, List.foldl_nil, Daemon.step, Daemon.startup, applyModes_eq]
  rfl

/-- A start that does not bind the queue leaves the table it finds. Assumes: it does not bind the
queue. -/
theorem table_started_of_not_bindsQueue {configuration : StartupConfiguration}
    (hbinds : ¬ configuration.BindsQueue) (files : Directory) (table : Option Table) :
    (Daemon.started configuration files table).state.table = table := by
  unfold Daemon.started StartupConfiguration.steps
  cases hskip : configuration.skipNfqueue with
  | true => rfl
  | false =>
    cases hqueue : configuration.queue with
    | done => exact absurd ⟨hskip, hqueue⟩ hbinds
    | openFails => rfl
    | bindFails => rfl
    | failOpenFails => rfl

/-- A blocked preference wants some direction. Assumes: it is blocked. -/
theorem exists_wantsHook {preference : TrafficPreference} (hblocked : preference.isBlocked = true) :
    ∃ hook, wantsHook hook preference = true := by
  rw [TrafficPreference.isBlocked_eq, Bool.or_eq_true] at hblocked
  rcases hblocked with hout | hin
  · exact ⟨.output, hout⟩
  · exact ⟨.input, hin⟩

/-- Some packet is required to be dropped exactly when a block is stored. -/
theorem exists_required_drop_iff (files : Directory) :
    (∃ packet, disposition (storedTable files) packet = .drop) ↔
      TrafficMode.anyBlockActive files = true := by
  simp only [disposition_storedTable_iff, TrafficMode.anyBlockActive, Bool.or_eq_true,
    Bool.not_eq_true', List.isEmpty_eq_false_iff]
  constructor
  · rintro ⟨packet, _, hwants | ⟨user, huser, _, _⟩⟩
    · exact .inl (isBlocked_of_wantsHook hwants)
    · exact .inr (List.ne_nil_of_mem huser)
  · rintro (hmachine | husers)
    · obtain ⟨hook, hwants⟩ := exists_wantsHook hmachine
      exact ⟨⟨hook, "eth0", .tcp, .new, none⟩, by simp [OpensTcp], .inl hwants⟩
    · obtain ⟨⟨uid, preference⟩, huser⟩ := List.exists_mem_of_ne_nil _ husers
      obtain ⟨_, _, _, hblocked⟩ := (mem_loadUserBlocks files uid preference).mp huser
      obtain ⟨hook, hwants⟩ := exists_wantsHook hblocked
      exact ⟨⟨hook, "eth0", .tcp, .new, some uid⟩, by simp [OpensTcp],
        .inr ⟨(uid, preference), huser, rfl, hwants⟩⟩

/-- The stored blocks are in force after a start without a table exactly when the start binds the
queue or no block is stored. -/
theorem stored_blocks_enforced_iff (configuration : StartupConfiguration) (files : Directory) :
    StoredBlocksEnforced configuration files ↔
      configuration.BindsQueue ∨ TrafficMode.anyBlockActive files = false := by
  by_cases hbinds : configuration.BindsQueue
  · refine iff_of_true (fun packet hrequired ↦ ?_) (.inl hbinds)
    obtain ⟨hopens, hblocked⟩ := (disposition_storedTable_iff files packet).mp hrequired
    rw [disposition_started_of_bindsQueue hbinds, intended, if_neg (not_not.mpr hopens),
      if_pos hblocked]
  · have haccept : ∀ packet,
        disposition (Daemon.started configuration files none).state.table packet ≠ .drop := by
      intro packet hdrop
      rw [table_started_of_not_bindsQueue hbinds] at hdrop
      cases hdrop
    rw [or_iff_right hbinds, ← Bool.not_eq_true, ← exists_required_drop_iff, not_exists]
    constructor
    · intro henforced packet hrequired
      exact haccept packet (henforced packet hrequired)
    · intro hnone packet hrequired
      exact absurd hrequired (hnone packet)

/-- The files of a machine that is blocked outwards. -/
def machineOutFiles : Directory :=
  (FiniteMap.empty : Directory).insert TrafficMode.machineName "out\n"

/-- A start whose queue cannot be bound leaves a machine block out without effect. -/
theorem unbound_start_lifts_block :
    disposition (storedTable machineOutFiles) ⟨.output, "eth0", .tcp, .new, some 1000⟩ = .drop ∧
      (Daemon.started ⟨false, .bindFails⟩ machineOutFiles none).state.table = none ∧
      (Daemon.started ⟨true, .done⟩ machineOutFiles none).state.table = none ∧
      ¬ StoredBlocksEnforced ⟨false, .bindFails⟩ machineOutFiles ∧
      ¬ StoredBlocksEnforced ⟨true, .done⟩ machineOutFiles := by
  have hrequired : disposition (storedTable machineOutFiles)
      ⟨.output, "eth0", .tcp, .new, some 1000⟩ = .drop :=
    (disposition_storedTable_iff _ _).mpr ⟨by decide, .inl (by decide)⟩
  refine ⟨hrequired, rfl, rfl, fun henforced ↦ ?_, fun henforced ↦ ?_⟩
  · cases henforced _ hrequired
  · cases henforced _ hrequired

end InterFire
