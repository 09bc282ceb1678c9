import InterFire.Nft

/-!
# Modes, requests and the table they apply

The other half of `Shared` (`crates/interfire-daemon/src/shared.rs`): the rules mode, the machine
preference, the bind state of the queue and the files that persist the preferences, together with
the owned table. `reapplyTable` installs the table of the current modes; `pause`, `resume`,
`trafficBlock` and `trafficUnblock` persist a change, take it into memory and reapply the table.
`applyModes` of `nft.rs` is the variant that the queue thread runs after it bound the queue.

Which table is applied is decided by `tableAction` from the machine preference, the list of user
blocks, the mode and whether the queue is bound; the source computes it inside `reapply_table`.
-/

set_option autoImplicit false
set_option relaxedAutoImplicit false

namespace InterFire

open Nftables Nft

/-- The live state of the queue. -/
inductive BindState
  | none
  | nfqueue
  | degraded
  deriving DecidableEq, Repr

inductive TrafficScope
  | machine
  | user
  deriving DecidableEq, Repr

/-- What is done to the owned table. -/
inductive TableAction
  | remove
  | install
  | composed (compose : TrafficCompose)
  deriving DecidableEq, Repr

/-- Run the commands of an action. -/
def TableAction.run (outcomes : NftOutcomes) (table : Option Table) :
    TableAction → Option Table × Except String Unit
  | .remove => Nft.remove outcomes.delete table
  | .install => Nft.install outcomes table
  | .composed compose => Nft.installComposed outcomes compose table

/-- The decision of `reapply_table`. -/
def tableAction (machine : TrafficPreference) (users : List (UInt32 × TrafficPreference))
    (rules : EnforcementMode) (queueBound : Bool) : TableAction :=
  let rulesActive := rules = .active
  let machineBlocks := machine.isBlocked
  let usersBlock := users.any fun user ↦ user.2.isBlocked
  if !machineBlocks && !usersBlock && !rulesActive then .remove
  else if !machineBlocks && !usersBlock && rulesActive then
    if queueBound then .install else .remove
  else .composed
    { machine, users, rulesActive := rulesActive && !machine.wantsOut, queueBound }

/-- The decision of `apply_modes`: a machine block out without users has a branch of its own. The
results of the commands are only logged. -/
def applyModes (outcomes : NftOutcomes) (machine : TrafficPreference)
    (users : List (UInt32 × TrafficPreference)) (rules : EnforcementMode) (queueBound : Bool)
    (table : Option Table) : Option Table :=
  let rulesActive := rules = .active
  let machineBlocks := machine.isBlocked
  let usersBlock := users.any fun user ↦ user.2.isBlocked
  if !machineBlocks && !usersBlock && !rulesActive then (Nft.remove outcomes.delete table).1
  else if !machineBlocks && !usersBlock && rulesActive then
    if queueBound then (Nft.install outcomes table).1 else (Nft.remove outcomes.delete table).1
  else if machine = .out && users.isEmpty then (Nft.installBlock outcomes table).1
  else (Nft.installComposed outcomes
    { machine, users, rulesActive := rulesActive && !machine.wantsOut, queueBound } table).1

/-- Open preferences ask for the queue table or for none. Assumes: neither the machine nor an entry
is blocked. -/
theorem tableAction_of_open {machine : TrafficPreference}
    {users : List (UInt32 × TrafficPreference)} (hmachine : machine.isBlocked = false)
    (husers : (users.any fun user ↦ user.2.isBlocked) = false) (rules : EnforcementMode)
    (queueBound : Bool) :
    tableAction machine users rules queueBound =
      if rules = .active ∧ queueBound = true then .install else .remove := by
  unfold tableAction
  rw [hmachine, husers]
  cases rules <;> cases queueBound <;> rfl

/-- Blocked preferences ask for a composed table. Assumes: the machine or an entry is blocked. -/
theorem tableAction_of_blocked {machine : TrafficPreference}
    {users : List (UInt32 × TrafficPreference)}
    (hblocked : ¬ (machine.isBlocked = false ∧ (users.any fun user ↦ user.2.isBlocked) = false))
    (rules : EnforcementMode) (queueBound : Bool) :
    tableAction machine users rules queueBound = .composed
      { machine, users, rulesActive := decide (rules = .active) && !machine.wantsOut,
        queueBound } := by
  have hneither : ¬ (!machine.isBlocked && !(users.any fun user ↦ user.2.isBlocked)) = true := by
    simpa using hblocked
  unfold tableAction
  dsimp only
  rw [if_neg fun hremove ↦ hneither (Bool.and_eq_true_iff.mp hremove).1,
    if_neg fun hinstall ↦ hneither (Bool.and_eq_true_iff.mp hinstall).1]

/-- The script of a machine block out without users does not depend on the rules. -/
theorem composeTrafficScript_out (rulesActive queueBound : Bool) :
    composeTrafficScript
        { machine := .out, users := [], rulesActive := false, queueBound := false } =
      composeTrafficScript
        { machine := .out, users := [], rulesActive := rulesActive && !TrafficPreference.out.wantsOut,
          queueBound } := by
  simp [composeTrafficScript, composeOutput, composeInput, TrafficPreference.wantsOut,
    TrafficPreference.wantsIn]

/-- The two decisions agree: the branch of `apply_modes` for a machine block out without users
installs the same script. -/
theorem applyModes_eq (outcomes : NftOutcomes) (machine : TrafficPreference)
    (users : List (UInt32 × TrafficPreference)) (rules : EnforcementMode) (queueBound : Bool)
    (table : Option Table) :
    applyModes outcomes machine users rules queueBound table =
      ((tableAction machine users rules queueBound).run outcomes table).1 := by
  unfold applyModes tableAction
  dsimp only
  split_ifs with hremove hinstall hbound hblock
  · rfl
  · rfl
  · rfl
  · obtain ⟨rfl, rfl⟩ : machine = .out ∧ users = [] := by simpa using hblock
    simp only [installBlock, TableAction.run, installComposed]
    rw [composeTrafficScript_out]
  · rfl

/-- The action that `apply_modes` decides on. -/
def applyModesAction (machine : TrafficPreference) (users : List (UInt32 × TrafficPreference))
    (rules : EnforcementMode) (queueBound : Bool) : TableAction :=
  let rulesActive := rules = .active
  let machineBlocks := machine.isBlocked
  let usersBlock := users.any fun user ↦ user.2.isBlocked
  if !machineBlocks && !usersBlock && !rulesActive then .remove
  else if !machineBlocks && !usersBlock && rulesActive then
    if queueBound then .install else .remove
  else if machine = .out && users.isEmpty then
    .composed { machine := .out, users := [], rulesActive := false, queueBound := false }
  else .composed
    { machine, users, rulesActive := rulesActive && !machine.wantsOut, queueBound }

/-- What becomes of the owned table: it is removed, replaced by the fixed queue script, or replaced
by a composed script. -/
inductive TableChange
  | remove
  | installOwned
  | installScript (script : String)
  deriving DecidableEq, Repr

/-- The change that an action makes. A composed script without a chain removes the table. -/
def TableAction.change : TableAction → TableChange
  | .remove => .remove
  | .install => .installOwned
  | .composed compose =>
    if composeTrafficScript compose = "" then .remove
    else .installScript (composeTrafficScript compose)

/-- `apply_modes` runs the action that it decides on. -/
theorem applyModes_eq_run (outcomes : NftOutcomes) (machine : TrafficPreference)
    (users : List (UInt32 × TrafficPreference)) (rules : EnforcementMode) (queueBound : Bool)
    (table : Option Table) :
    applyModes outcomes machine users rules queueBound table =
      ((applyModesAction machine users rules queueBound).run outcomes table).1 := by
  unfold applyModes applyModesAction
  dsimp only
  split_ifs <;> rfl

/-- `apply_modes` and `reapply_table` make the same change to the table for all preferences, modes
and bind states; the commands of either, when they end alike, leave the table that `apply_modes`
leaves. -/
theorem applyModes_agrees_with_reapply (machine : TrafficPreference)
    (users : List (UInt32 × TrafficPreference)) (rules : EnforcementMode) (bindState : BindState) :
    (applyModesAction machine users rules (bindState = .nfqueue)).change =
        (tableAction machine users rules (bindState = .nfqueue)).change ∧
      ∀ outcomes table,
        applyModes outcomes machine users rules (bindState = .nfqueue) table =
          ((applyModesAction machine users rules (bindState = .nfqueue)).run outcomes table).1 ∧
        applyModes outcomes machine users rules (bindState = .nfqueue) table =
          ((tableAction machine users rules (bindState = .nfqueue)).run outcomes table).1 := by
  refine ⟨?_, fun outcomes table ↦ ⟨applyModes_eq_run outcomes machine users rules _ table,
    applyModes_eq outcomes machine users rules _ table⟩⟩
  unfold applyModesAction tableAction
  dsimp only
  split_ifs with hremove hinstall hbound hblock
  · rfl
  · rfl
  · rfl
  · obtain ⟨rfl, rfl⟩ : machine = .out ∧ users = [] := by simpa using hblock
    rw [TableAction.change, TableAction.change, composeTrafficScript_out]
  · rfl

/-- The modes in memory, the files, and the installed table. -/
structure Enforcement where
  files : Directory
  paused : Bool
  machineTraffic : TrafficPreference
  bindState : BindState
  table : Option Table

/-- How the steps of a request end. -/
structure RequestOutcomes where
  store : StoreOutcome
  sequence : ℕ
  nft : NftOutcomes
  deriving DecidableEq, Repr

/-- Every step succeeds. -/
def RequestOutcomes.success (sequence : ℕ) : RequestOutcomes := ⟨.done, sequence, .success⟩

/-- A request that changes a mode or a preference. -/
inductive ModeRequest
  | pause
  | resume
  | trafficBlock (scope : TrafficScope) (preference : TrafficPreference) (uid : UInt32)
  | trafficUnblock (scope : TrafficScope) (uid : UInt32)
  deriving DecidableEq, Repr

namespace Enforcement

variable (state : Enforcement)

def rulesMode : EnforcementMode := if state.paused then .paused else .active

def queueBound : Bool := state.bindState = .nfqueue

def userBlocks : List (UInt32 × TrafficPreference) := TrafficMode.loadUserBlocks state.files

/-- The preference of a user, read from its file. -/
def userPreference (uid : UInt32) : TrafficPreference :=
  TrafficMode.load state.files (TrafficMode.userPath uid)

/-- The label of the status response for a peer. -/
def trafficEffective (uid : UInt32) : String :=
  (effective state.machineTraffic (state.userPreference uid) uid).label

/-- Apply the table of the current modes. -/
def reapplyTable (outcomes : NftOutcomes) : Enforcement × Except String Unit :=
  let action := tableAction state.machineTraffic state.userBlocks state.rulesMode state.queueBound
  let (table, result) := action.run outcomes state.table
  ({ state with table }, result)

/-- Persist a mode, take it into memory, and apply the table. -/
def setMode (outcomes : RequestOutcomes) (mode : EnforcementMode) :
    Enforcement × Except String Unit :=
  match EnforcementMode.store outcomes.store outcomes.sequence mode state.files with
  | (files, .error error) => ({ state with files }, .error error)
  | (files, .ok ()) =>
    reapplyTable { state with files, paused := mode = .paused } outcomes.nft

def pause (outcomes : RequestOutcomes) : Enforcement × Except String Unit :=
  state.setMode outcomes .paused

def resume (outcomes : RequestOutcomes) : Enforcement × Except String Unit :=
  if state.bindState ≠ .nfqueue then
    (state, .error "NFQUEUE not bound; cannot start enforcement")
  else state.setMode outcomes .active

/-- Persist a preference, take a machine preference into memory, and apply the table. -/
def setPreference (outcomes : RequestOutcomes) (scope : TrafficScope)
    (preference : TrafficPreference) (uid : UInt32) : Enforcement × Except String Unit :=
  match scope with
  | .machine =>
    match TrafficMode.store outcomes.store outcomes.sequence TrafficMode.machineName preference
        state.files with
    | (files, .error error) => ({ state with files }, .error error)
    | (files, .ok ()) =>
      reapplyTable { state with files, machineTraffic := preference } outcomes.nft
  | .user =>
    match TrafficMode.store outcomes.store outcomes.sequence (TrafficMode.userPath uid) preference
        state.files with
    | (files, .error error) => ({ state with files }, .error error)
    | (files, .ok ()) => reapplyTable { state with files } outcomes.nft

def trafficBlock (outcomes : RequestOutcomes) (scope : TrafficScope)
    (preference : TrafficPreference) (uid : UInt32) : Enforcement × Except String Unit :=
  if preference = .open then (state, .error "traffic block requires out, in, or all")
  else state.setPreference outcomes scope preference uid

def trafficUnblock (outcomes : RequestOutcomes) (scope : TrafficScope) (uid : UInt32) :
    Enforcement × Except String Unit :=
  state.setPreference outcomes scope .open uid

/-- Handle a request. -/
def handle (outcomes : RequestOutcomes) : ModeRequest → Enforcement × Except String Unit
  | .pause => state.pause outcomes
  | .resume => state.resume outcomes
  | .trafficBlock scope preference uid => state.trafficBlock outcomes scope preference uid
  | .trafficUnblock scope uid => state.trafficUnblock outcomes scope uid

/-! ### The steps of a request -/

/-- The check that precedes the steps of a request. -/
def accepts : ModeRequest → Bool
  | .pause => true
  | .resume => state.bindState = .nfqueue
  | .trafficBlock _ preference _ => preference ≠ .open
  | .trafficUnblock _ _ => true

/-- The store to memory of a request; a user preference is in its file only. -/
def remember : ModeRequest → Enforcement
  | .pause => { state with paused := true }
  | .resume => { state with paused := false }
  | .trafficBlock .machine preference _ => { state with machineTraffic := preference }
  | .trafficUnblock .machine _ => { state with machineTraffic := .open }
  | .trafficBlock .user _ _ => state
  | .trafficUnblock .user _ => state

end Enforcement

/-- The file that a request writes. -/
def ModeRequest.fileName : ModeRequest → String
  | .pause => EnforcementMode.modeName
  | .resume => EnforcementMode.modeName
  | .trafficBlock .machine _ _ => TrafficMode.machineName
  | .trafficUnblock .machine _ => TrafficMode.machineName
  | .trafficBlock .user _ uid => TrafficMode.userPath uid
  | .trafficUnblock .user uid => TrafficMode.userPath uid

/-- What a request writes. -/
def ModeRequest.content : ModeRequest → String
  | .pause => EnforcementMode.paused.asStr ++ "\n"
  | .resume => EnforcementMode.active.asStr ++ "\n"
  | .trafficBlock _ preference _ => preference.asStr ++ "\n"
  | .trafficUnblock _ _ => TrafficPreference.open.asStr ++ "\n"

namespace Enforcement

variable (state : Enforcement) (outcomes : RequestOutcomes) (request : ModeRequest)

/-- The state after a request has stored its file and its memory. -/
def stored (sequence : ℕ) : Enforcement :=
  ({ state with files :=
    (storeFile .done sequence request.fileName request.content state.files).1 }).remember request

/-- The steps of an accepted request, whichever it is. -/
def perform : Enforcement × Except String Unit :=
  match storeFile outcomes.store outcomes.sequence request.fileName request.content state.files with
  | (files, .error error) => ({ state with files }, .error error)
  | (files, .ok ()) => (({ state with files }).remember request).reapplyTable outcomes.nft

/-- The four handlers are one sequence of steps. Assumes: the request is accepted. -/
theorem handle_of_accepts (haccepts : state.accepts request = true) :
    state.handle outcomes request = state.perform outcomes request := by
  cases request with
  | pause => rfl
  | resume =>
    have hbound : state.bindState = .nfqueue := by simpa [accepts] using haccepts
    simp only [handle, resume, hbound, ne_eq, not_true_eq_false, if_false]
    rfl
  | trafficBlock scope preference uid =>
    have hblocks : preference ≠ .open := by simpa [accepts] using haccepts
    simp only [handle, trafficBlock, hblocks, if_false]
    cases scope <;> rfl
  | trafficUnblock scope uid => cases scope <;> rfl

/-- A refused request changes nothing. Assumes: the request is not accepted. -/
theorem handle_of_refused (hrefused : state.accepts request = false) :
    ∃ error, state.handle outcomes request = (state, .error error) := by
  cases request with
  | pause => simp [accepts] at hrefused
  | resume =>
    have hbound : state.bindState ≠ .nfqueue := by simpa [accepts] using hrefused
    exact ⟨_, if_pos hbound⟩
  | trafficBlock scope preference uid =>
    have hopen : preference = .open := by simpa [accepts] using hrefused
    exact ⟨_, if_pos hopen⟩
  | trafficUnblock scope uid => simp [accepts] at hrefused

/-- An accepted request whose file is not stored changes neither memory nor the table. Assumes: the
store fails. -/
theorem perform_of_failed {error : String} {leftover : Option String}
    (hfailed : outcomes.store = .failed error leftover) :
    ∃ files, state.perform outcomes request = ({ state with files }, .error error) := by
  unfold perform
  rw [hfailed]
  cases leftover with
  | none => exact ⟨_, rfl⟩
  | some leftover => exact ⟨_, rfl⟩

/-- An accepted request whose file is stored reapplies the table. Assumes: the store succeeds. -/
theorem perform_of_done (hdone : outcomes.store = .done) :
    state.perform outcomes request =
      (state.stored request outcomes.sequence).reapplyTable outcomes.nft := by
  unfold perform
  rw [hdone]
  rfl

/-- A request ends before it stored its file, and then only the files may have changed, or it stores
its file and its memory and reapplies the table. -/
theorem handle_cases :
    (¬ (state.accepts request = true ∧ outcomes.store = .done) ∧
      ∃ files error, state.handle outcomes request = ({ state with files }, .error error)) ∨
    ((state.accepts request = true ∧ outcomes.store = .done) ∧
      state.handle outcomes request =
        (state.stored request outcomes.sequence).reapplyTable outcomes.nft) := by
  cases haccepts : state.accepts request with
  | false =>
    obtain ⟨error, hrefused⟩ := state.handle_of_refused outcomes request haccepts
    exact .inl ⟨by simp, state.files, error, hrefused⟩
  | true =>
    rw [state.handle_of_accepts outcomes request haccepts]
    cases hstore : outcomes.store with
    | failed error leftover =>
      obtain ⟨files, hfailed⟩ := state.perform_of_failed outcomes request hstore
      exact .inl ⟨by simp, files, error, hfailed⟩
    | done => exact .inr ⟨by simp, state.perform_of_done outcomes request hstore⟩

@[simp] theorem stored_table (sequence : ℕ) :
    (state.stored request sequence).table = state.table := by
  cases request with
  | trafficBlock scope preference uid => cases scope <;> rfl
  | trafficUnblock scope uid => cases scope <;> rfl
  | _ => rfl

@[simp] theorem stored_bindState (sequence : ℕ) :
    (state.stored request sequence).bindState = state.bindState := by
  cases request with
  | trafficBlock scope preference uid => cases scope <;> rfl
  | trafficUnblock scope uid => cases scope <;> rfl
  | _ => rfl

/-! ### Files and memory after a request -/

theorem stemOf_fileName : stemOf request.fileName ∈ stateStems := by
  cases request with
  | pause => exact stemOf_modeName_mem
  | resume => exact stemOf_modeName_mem
  | trafficBlock scope preference uid =>
    cases scope with
    | machine => exact stemOf_machineName_mem
    | user => exact stemOf_userPath_mem uid
  | trafficUnblock scope uid =>
    cases scope with
    | machine => exact stemOf_machineName_mem
    | user => exact stemOf_userPath_mem uid

@[simp] theorem files_remember : (state.remember request).files = state.files := by
  cases request with
  | trafficBlock scope preference uid => cases scope <;> rfl
  | trafficUnblock scope uid => cases scope <;> rfl
  | _ => rfl

/-- The files after a request are those that its store leaves. -/
theorem files_handle :
    (state.handle outcomes request).1.files =
      if state.accepts request then
        (storeFile outcomes.store outcomes.sequence request.fileName request.content
          state.files).1
      else state.files := by
  cases haccepts : state.accepts request with
  | false =>
    obtain ⟨error, hrefused⟩ := state.handle_of_refused outcomes request haccepts
    rw [hrefused]
    rfl
  | true =>
    rw [state.handle_of_accepts outcomes request haccepts, perform, if_pos rfl]
    split
    · next hstore => rw [hstore]
    · next hstore =>
      rw [hstore]
      exact files_remember _ request

/-- A request that does not store its file leaves every kept file. Assumes: it is refused or its
store fails, and the name is that of a kept file. -/
theorem get_files_handle_of_not_stored
    (hnot : ¬ (state.accepts request = true ∧ outcomes.store = .done)) {name : String}
    (hname : stemOf name ∈ stateStems) :
    (state.handle outcomes request).1.files.get name = state.files.get name := by
  rw [files_handle]
  split_ifs with haccepts
  · cases hstore : outcomes.store with
    | done => exact absurd ⟨haccepts, hstore⟩ hnot
    | failed error leftover =>
      exact get_storeFile_failed state.files
        (ne_temporaryName (stemOf_fileName request) hname outcomes.sequence)
  · rfl

/-- A request leaves every kept file but its own. Assumes: the name is that of a kept file, and not
of the request's. -/
theorem get_files_handle_of_ne {name : String} (hname : stemOf name ∈ stateStems)
    (hne : name ≠ request.fileName) :
    (state.handle outcomes request).1.files.get name = state.files.get name := by
  by_cases hstored : state.accepts request = true ∧ outcomes.store = .done
  · rw [files_handle, if_pos hstored.1, hstored.2, get_storeFile_done, if_neg hne,
      if_neg (ne_temporaryName (stemOf_fileName request) hname outcomes.sequence)]
  · exact get_files_handle_of_not_stored state outcomes request hstored hname

/-- The machine preference of a stored request: its own when it is about the machine. -/
theorem machineTraffic_stored (sequence : ℕ) :
    (state.stored request sequence).machineTraffic =
      match request with
      | .trafficBlock .machine preference _ => preference
      | .trafficUnblock .machine _ => .open
      | _ => state.machineTraffic := by
  cases request with
  | trafficBlock scope preference uid => cases scope <;> rfl
  | trafficUnblock scope uid => cases scope <;> rfl
  | _ => rfl

/-- A request that is not about the machine leaves the machine preference. Assumes: its file is not
that of the machine. -/
theorem machineTraffic_handle (hname : request.fileName ≠ TrafficMode.machineName) :
    (state.handle outcomes request).1.machineTraffic = state.machineTraffic := by
  rcases state.handle_cases outcomes request with ⟨_, files, error, hhandle⟩ | ⟨_, hhandle⟩
  · rw [hhandle]
  · have hstored := machineTraffic_stored state request outcomes.sequence
    rw [hhandle]
    refine hstored.trans ?_
    cases request with
    | trafficBlock scope preference uid =>
      cases scope with
      | machine => exact absurd rfl hname
      | user => rfl
    | trafficUnblock scope uid =>
      cases scope with
      | machine => exact absurd rfl hname
      | user => rfl
    | _ => rfl

end Enforcement

end InterFire
