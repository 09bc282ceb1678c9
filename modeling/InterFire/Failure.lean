import InterFire.TableMeaning

/-!
# What a failed table update leaves behind

A table is replaced by two commands: the owned table is deleted, whatever comes of that, and then
the new script is loaded. `KeepsDrops` says of a call that returns an error that every packet the
earlier table dropped is still dropped. `failed_update_keeps_drops_iff` says exactly when the
installing calls and the requests that end in one of them have that property: they lose it when the
call loads a script, the delete goes through and the load does not.
-/

set_option autoImplicit false
set_option relaxedAutoImplicit false

namespace InterFire

open Nftables Nft

/-- After an error every packet that the earlier table dropped is still dropped. -/
def KeepsDrops (prior : Option Table) (call : Option Table × Except String Unit) : Prop :=
  (∃ error, call.2 = .error error) →
    ∀ packet, disposition prior packet = .drop → disposition call.1 packet = .drop

/-- The outcomes take a table away that drops something: it is deleted and nothing is loaded. -/
def LiftsDrops (outcomes : NftOutcomes) (prior : Option Table) : Prop :=
  outcomes.delete = .done ∧ outcomes.load ≠ .done ∧ ∃ packet, disposition prior packet = .drop

/-- A call that leaves the table alone keeps what it drops. Assumes: the table is the same. -/
theorem keepsDrops_of_table_eq {prior : Option Table} {call : Option Table × Except String Unit}
    (htable : call.1 = prior) : KeepsDrops prior call := by
  intro _ packet hdrop
  rwa [htable]

/-- A call that succeeds has nothing to keep. Assumes: the result is not an error. -/
theorem keepsDrops_of_ok {prior : Option Table} {call : Option Table × Except String Unit}
    (hok : call.2 = .ok ()) : KeepsDrops prior call := by
  rintro ⟨error, herror⟩
  rw [hok] at herror
  cases herror

/-! ### The two commands -/

/-- A delete that returns an error has left the table alone. -/
theorem keepsDrops_remove (outcome : DeleteOutcome) (table : Option Table) :
    KeepsDrops table (remove outcome table) := by
  cases outcome with
  | done => exact keepsDrops_of_ok rfl
  | spawnFailed error => exact keepsDrops_of_table_eq rfl
  | rejected stderr => exact keepsDrops_of_table_eq rfl

/-- A delete that did not go through leaves the table alone. Assumes: it did not. -/
theorem remove_table_of_ne {outcome : DeleteOutcome} (hfailed : outcome ≠ .done)
    (table : Option Table) : (remove outcome table).1 = table := by
  cases outcome with
  | done => exact absurd rfl hfailed
  | spawnFailed error => rfl
  | rejected stderr => rfl

/-- A load that does not go through returns an error and leaves the table alone. Assumes: it does
not. -/
theorem loadScript_of_ne {outcome : LoadOutcome} (hfailed : outcome ≠ .done)
    (failure script : String) (table : Option Table) :
    ∃ error, loadScript outcome failure script table = (table, .error error) := by
  cases outcome with
  | done => exact absurd rfl hfailed
  | _ => exact ⟨_, rfl⟩

/-- Deleting a table and loading a script over it keeps the drops unless the outcomes lift them.
Assumes: the script declares a table. -/
theorem keepsDrops_replace_iff {script : String} {declared : Table}
    (hscript : parseScript script = some declared) (outcomes : NftOutcomes) (failure : String)
    (table : Option Table) :
    KeepsDrops table (loadScript outcomes.load failure script (remove outcomes.delete table).1) ↔
      ¬ LiftsDrops outcomes table := by
  by_cases hload : outcomes.load = .done
  · have hkeeps : KeepsDrops table
        (loadScript outcomes.load failure script (remove outcomes.delete table).1) := by
      refine keepsDrops_of_ok ?_
      rw [hload, loadScript, hscript]
    exact iff_of_true hkeeps fun hlifts ↦ hlifts.2.1 hload
  · obtain ⟨error, hfailed⟩ :=
      loadScript_of_ne hload failure script (remove outcomes.delete table).1
    rw [hfailed]
    by_cases hdelete : outcomes.delete = .done
    · rw [hdelete, remove]
      constructor
      · rintro hkeeps ⟨_, _, packet, hdrop⟩
        have hnone := hkeeps ⟨error, rfl⟩ packet hdrop
        cases hnone
      · intro hnot _ packet hdrop
        exact absurd ⟨hdelete, hload, packet, hdrop⟩ hnot
    · exact iff_of_true (keepsDrops_of_table_eq (remove_table_of_ne hdelete table))
        fun hlifts ↦ hdelete hlifts.1

/-! ### Actions and requests -/

/-- The action loads a script. -/
def TableAction.loads : TableAction → Bool
  | .remove => false
  | .install => true
  | .composed compose => needsOutput compose || needsInput compose

/-- The modes ask for a table. -/
def Enforcement.needsTable (state : Enforcement) : Bool :=
  state.machineTraffic.isBlocked || state.userBlocks.any (·.2.isBlocked) ||
    (state.rulesMode = .active && state.queueBound)

theorem keepsDrops_installComposed_iff (outcomes : NftOutcomes) (compose : TrafficCompose)
    (table : Option Table) :
    KeepsDrops table (installComposed outcomes compose table) ↔
      ¬ ((needsOutput compose || needsInput compose) = true ∧ LiftsDrops outcomes table) := by
  unfold installComposed
  dsimp only
  split_ifs with hempty
  · obtain ⟨houtput, hinput⟩ := (composeTrafficScript_eq_empty_iff compose).mp hempty
    simp [keepsDrops_remove, houtput, hinput]
  · rw [keepsDrops_replace_iff (parseScript_composeTrafficScript hempty)]
    have hneeds : (needsOutput compose || needsInput compose) = true := by
      by_contra hneither
      rw [Bool.not_eq_true, Bool.or_eq_false_iff] at hneither
      exact hempty ((composeTrafficScript_eq_empty_iff compose).mpr hneither)
    simp [hneeds]

theorem keepsDrops_run_iff (action : TableAction) (outcomes : NftOutcomes) (table : Option Table) :
    KeepsDrops table (action.run outcomes table) ↔
      ¬ (action.loads = true ∧ LiftsDrops outcomes table) := by
  cases action with
  | remove => simp [TableAction.run, TableAction.loads, keepsDrops_remove]
  | install =>
    simp [TableAction.run, TableAction.loads, install,
      keepsDrops_replace_iff parseScript_ownedTableScript]
  | composed compose => exact keepsDrops_installComposed_iff outcomes compose table

/-- The decided action loads a script exactly when the modes ask for a table. -/
theorem loads_tableAction (machine : TrafficPreference) (users : List (UInt32 × TrafficPreference))
    (mode : EnforcementMode) (queueBound : Bool) :
    (tableAction machine users mode queueBound).loads =
      (machine.isBlocked || users.any (·.2.isBlocked) || (mode = .active && queueBound)) := by
  by_cases hopen : machine.isBlocked = false ∧ (users.any fun user ↦ user.2.isBlocked) = false
  · rw [tableAction_of_open hopen.1 hopen.2, hopen.1, hopen.2]
    cases mode <;> cases queueBound <;> rfl
  · have hblocked : (machine.isBlocked || users.any (·.2.isBlocked)) = true := by
      rw [← Bool.not_eq_false, Bool.or_eq_false_iff]
      exact hopen
    rw [tableAction_of_blocked hopen, hblocked, Bool.true_or]
    simp only [TableAction.loads, needsOutput, needsInput, Bool.or_eq_true]
    rw [Bool.or_eq_true, TrafficPreference.isBlocked_eq, Bool.or_eq_true] at hblocked
    rcases hblocked with (hout | hin) | husers
    · exact .inl (.inl (.inl hout))
    · exact .inr (.inl hin)
    · obtain ⟨user, hmem, hblocked⟩ := List.any_eq_true.mp husers
      rw [TrafficPreference.isBlocked_eq, Bool.or_eq_true] at hblocked
      rcases hblocked with hout | hin
      · exact .inl (.inl (.inr (List.any_eq_true.mpr ⟨user, hmem, hout⟩)))
      · exact .inr (.inr (List.any_eq_true.mpr ⟨user, hmem, hin⟩))

theorem keepsDrops_reapplyTable_iff (state : Enforcement) (outcomes : NftOutcomes) :
    KeepsDrops state.table
        ((state.reapplyTable outcomes).1.table, (state.reapplyTable outcomes).2) ↔
      ¬ (state.needsTable = true ∧ LiftsDrops outcomes state.table) := by
  rw [Enforcement.needsTable, ← loads_tableAction]
  exact keepsDrops_run_iff _ outcomes state.table

/-- A request loses drops exactly when it is accepted, its file is stored, the modes it leaves ask
for a table, and the outcomes of the two commands lift what the earlier table dropped. -/
theorem keepsDrops_handle_iff (state : Enforcement) (outcomes : RequestOutcomes)
    (request : ModeRequest) :
    KeepsDrops state.table
        ((state.handle outcomes request).1.table, (state.handle outcomes request).2) ↔
      ¬ (state.accepts request = true ∧ outcomes.store = .done ∧
        (state.stored request outcomes.sequence).needsTable = true ∧
        LiftsDrops outcomes.nft state.table) := by
  rcases state.handle_cases outcomes request with
    ⟨hnot, files, error, hhandle⟩ | ⟨⟨haccepts, hstore⟩, hhandle⟩
  · rw [hhandle]
    exact iff_of_true (keepsDrops_of_table_eq rfl) fun hlifts ↦ hnot ⟨hlifts.1, hlifts.2.1⟩
  · have hreapply := keepsDrops_reapplyTable_iff (state.stored request outcomes.sequence)
      outcomes.nft
    rw [Enforcement.stored_table] at hreapply
    rw [hhandle, hreapply]
    simp [haccepts, hstore]

/-- When a failed update keeps what the earlier table dropped: for the two installing calls, for
`reapply_table`, and for every request that ends in it. -/
theorem failed_update_keeps_drops_iff (nft : NftOutcomes) (table : Option Table)
    (compose : TrafficCompose) (state : Enforcement) (outcomes : RequestOutcomes)
    (request : ModeRequest) :
    (KeepsDrops table (install nft table) ↔ ¬ LiftsDrops nft table) ∧
    (KeepsDrops table (installComposed nft compose table) ↔
      ¬ ((needsOutput compose || needsInput compose) = true ∧ LiftsDrops nft table)) ∧
    (KeepsDrops state.table ((state.reapplyTable nft).1.table, (state.reapplyTable nft).2) ↔
      ¬ (state.needsTable = true ∧ LiftsDrops nft state.table)) ∧
    (KeepsDrops state.table
        ((state.handle outcomes request).1.table, (state.handle outcomes request).2) ↔
      ¬ (state.accepts request = true ∧ outcomes.store = .done ∧
        (state.stored request outcomes.sequence).needsTable = true ∧
        LiftsDrops outcomes.nft state.table)) :=
  ⟨keepsDrops_replace_iff parseScript_ownedTableScript nft _ table,
    keepsDrops_installComposed_iff nft compose table, keepsDrops_reapplyTable_iff state nft,
    keepsDrops_handle_iff state outcomes request⟩

/-! ### A block that a pause lifts -/

/-- The preferences of a machine block out. -/
def machineOut : TrafficCompose :=
  { machine := .out, users := [], rulesActive := false, queueBound := false }

/-- A daemon with a machine block out in force. -/
def blockedMachine : Enforcement :=
  { files := FiniteMap.empty.insert TrafficMode.machineName "out\n", paused := false,
    machineTraffic := .out, bindState := .nfqueue, table := some (composedTable machineOut) }

/-- The delete goes through and the load is rejected. -/
def rejectedLoad : NftOutcomes :=
  ⟨.done, .rejected "Error: Could not process rule: No buffer space"⟩

/-- A packet that opens a connection to another host. -/
def outboundPacket : Packet := ⟨.output, "eth0", .tcp, .new, some 1000⟩

/-- The block drops what is opened to the outside; after a load that is rejected it is accepted, be
it that the same table was installed again or that the rules were paused. -/
theorem rejected_load_lifts_block :
    disposition blockedMachine.table outboundPacket = .drop ∧
      ¬ KeepsDrops blockedMachine.table
        (installComposed rejectedLoad machineOut blockedMachine.table) ∧
      ¬ KeepsDrops blockedMachine.table
        ((blockedMachine.pause ⟨.done, 0, rejectedLoad⟩).1.table,
          (blockedMachine.pause ⟨.done, 0, rejectedLoad⟩).2) := by
  have hdrop : disposition blockedMachine.table outboundPacket = .drop := by decide
  refine ⟨hdrop, fun hkeeps ↦ ?_, fun hkeeps ↦ ?_⟩
  · have hafter := hkeeps ⟨_, rfl⟩ outboundPacket hdrop
    exact absurd hafter (by decide)
  · have hafter := hkeeps ⟨_, rfl⟩ outboundPacket hdrop
    exact absurd hafter (by decide)

end InterFire
