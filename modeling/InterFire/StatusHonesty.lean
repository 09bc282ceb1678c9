import InterFire.Failure
import InterFire.Library.Run

/-!
# What the status reports and what the table drops

A request stores its preference and takes it into memory before it touches the table, and the status
response reads the preference only. `Honest` says that every direction of the label of a user is one
in which the table drops what the user opens. A request spoils that when it deletes the table and
cannot load the new one, or when it blocks a direction and never gets to the table. `Covers` is what
a request has to keep for the later ones: the table drops in all directions of the machine and of
every user, those that the label hides too. `status_honest_of_run` says that after a first
successful request the status stays honest as long as every request honours its blocks.
-/

set_option autoImplicit false
set_option relaxedAutoImplicit false

namespace InterFire

open Nftables Nft

namespace Enforcement

/-- The directions that the label of a user names are directions in which the table drops. -/
def Honest (state : Enforcement) (uid : UInt32) : Prop :=
  labelDirections (state.trafficEffective uid) ⊆ dropDirections state.table uid

/-- The table drops in every direction of the machine and of every user. -/
def Covers (state : Enforcement) : Prop :=
  ∀ uid, preferenceDirections state.machineTraffic ∪
    preferenceDirections (state.userPreference uid) ⊆ dropDirections state.table uid

/-- The status reports a block to some user. -/
def ReportsBlock (state : Enforcement) : Prop :=
  state.machineTraffic.isBlocked = true ∨ ∃ uid, (state.userPreference uid).isBlocked = true

/-- The table already drops what a request is to block. -/
def AlreadyDrops (state : Enforcement) : ModeRequest → Prop
  | .trafficBlock .machine preference _ =>
    ∀ uid, preferenceDirections preference ⊆ dropDirections state.table uid
  | .trafficBlock .user preference uid =>
    preferenceDirections preference ⊆ dropDirections state.table uid
  | _ => True

/-- What a request has to meet that stores its file and leaves a block to report: it replaces the
table, or it leaves alone a table that already drops what it blocks. -/
def Honours (state : Enforcement) (outcomes : RequestOutcomes) (request : ModeRequest) : Prop :=
  state.accepts request = true → outcomes.store = .done →
    (state.stored request outcomes.sequence).ReportsBlock →
    (outcomes.nft.load = .done ∧ (outcomes.nft.delete = .done ∨ state.table = none)) ∨
    (outcomes.nft.load ≠ .done ∧ outcomes.nft.delete ≠ .done ∧ state.AlreadyDrops request)

/-! ### Labels and preferences -/

/-- An open preference has no directions. -/
theorem preferenceDirections_of_open {preference : TrafficPreference}
    (hopen : preference.isBlocked = false) : preferenceDirections preference = ∅ := by
  refine Set.eq_empty_of_forall_notMem fun hook hwants ↦ ?_
  have hblocked := isBlocked_of_wantsHook hwants
  rw [hopen] at hblocked
  cases hblocked

/-- A table that covers the preferences makes every label honest. Assumes: it covers them. -/
theorem honest_of_covers {state : Enforcement} (hcovers : state.Covers) (uid : UInt32) :
    state.Honest uid := by
  refine Set.Subset.trans ?_ (hcovers uid)
  rw [trafficEffective, labelDirections_effective]
  split_ifs
  · exact Set.subset_union_left
  · exact Set.subset_union_right

/-- Any table covers preferences that are all open. Assumes: no block is reported. -/
theorem covers_of_not_reportsBlock {state : Enforcement} (hopen : ¬ state.ReportsBlock) :
    state.Covers := by
  intro uid
  rw [ReportsBlock, not_or, not_exists] at hopen
  have hmachine := Bool.eq_false_iff.mpr hopen.1
  have huser := Bool.eq_false_iff.mpr (hopen.2 uid)
  rw [preferenceDirections_of_open hmachine, preferenceDirections_of_open huser]
  simp

/-- A user whose preference is blocked is in the list of blocks. Assumes: it is blocked. -/
theorem mem_userBlocks {state : Enforcement} {uid : UInt32}
    (hblocked : (state.userPreference uid).isBlocked = true) :
    (uid, state.userPreference uid) ∈ state.userBlocks :=
  (mem_loadUserBlocks state.files uid _).mpr
    ⟨TrafficMode.userPath uid, userOfName_userPath uid, rfl, hblocked⟩

/-- A table that drops what is blocked covers the preferences. Assumes: it drops the blocked packets
that open connections. -/
theorem covers_of_blocked {state : Enforcement} (hdrops : ∀ packet, OpensTcp packet →
    Blocked state.machineTraffic state.userBlocks packet →
      disposition state.table packet = .drop) : state.Covers := by
  rintro uid hook hwants packet rfl huid hopens
  refine hdrops packet hopens ?_
  rcases hwants with hmachine | huser
  · exact .inl hmachine
  · exact .inr ⟨_, mem_userBlocks (isBlocked_of_wantsHook huser), huid, huser⟩

/-! ### The files of a request -/

theorem userPath_ne_temporaryName (request : ModeRequest) (uid : UInt32) (sequence : ℕ) :
    TrafficMode.userPath uid ≠ temporaryName request.fileName sequence :=
  ne_temporaryName (stemOf_fileName request) (stemOf_userPath_mem uid) sequence

/-- A request that does not store its file leaves memory, table and preferences. Assumes: it is
refused or its store fails. -/
theorem unchanged_of_not_stored {state : Enforcement} {outcomes : RequestOutcomes}
    {request : ModeRequest}
    (hnot : ¬ (state.accepts request = true ∧ outcomes.store = .done)) :
    (state.handle outcomes request).1.machineTraffic = state.machineTraffic ∧
      (state.handle outcomes request).1.table = state.table ∧
      ∀ uid, (state.handle outcomes request).1.userPreference uid = state.userPreference uid := by
  have huser : ∀ uid,
      (state.handle outcomes request).1.userPreference uid = state.userPreference uid := by
    intro uid
    unfold userPreference TrafficMode.load
    rw [get_files_handle_of_not_stored state outcomes request hnot (stemOf_userPath_mem uid)]
  rcases state.handle_cases outcomes request with ⟨_, files, error, hhandle⟩ | ⟨hstored, _⟩
  · refine ⟨?_, ?_, huser⟩
    · rw [hhandle]
    · rw [hhandle]
  · exact absurd hstored hnot

theorem files_stored (state : Enforcement) (request : ModeRequest) (sequence : ℕ) :
    (state.stored request sequence).files =
      (storeFile .done sequence request.fileName request.content state.files).1 := by
  cases request with
  | trafficBlock scope preference uid => cases scope <;> rfl
  | trafficUnblock scope uid => cases scope <;> rfl
  | _ => rfl

/-- The preference of a user after a stored request: that of the request when it is about this
user. -/
theorem userPreference_stored (state : Enforcement) (request : ModeRequest) (sequence : ℕ)
    (uid : UInt32) :
    (state.stored request sequence).userPreference uid =
      match request with
      | .trafficBlock .user preference user =>
        if user = uid then preference else state.userPreference uid
      | .trafficUnblock .user user => if user = uid then .open else state.userPreference uid
      | _ => state.userPreference uid := by
  have hget : (state.stored request sequence).files.get (TrafficMode.userPath uid) =
      if TrafficMode.userPath uid = request.fileName then some request.content
      else state.files.get (TrafficMode.userPath uid) := by
    rw [files_stored, get_storeFile_done, if_neg (userPath_ne_temporaryName request uid sequence)]
  have huser : ∀ user, TrafficMode.userPath uid = TrafficMode.userPath user ↔ user = uid :=
    fun user ↦ ⟨fun hpath ↦ (userPath_injective hpath).symm, fun hsame ↦ by rw [hsame]⟩
  have hmode := (modeName_ne_userPath uid).symm
  have hmachine := (machineName_ne_userPath uid).symm
  unfold userPreference TrafficMode.load
  rw [hget]
  cases request with
  | pause => rw [ModeRequest.fileName, if_neg hmode]
  | resume => rw [ModeRequest.fileName, if_neg hmode]
  | trafficBlock scope preference user =>
    cases scope with
    | machine => rw [ModeRequest.fileName, if_neg hmachine]
    | user =>
      simp only [ModeRequest.fileName, huser, ModeRequest.content]
      split_ifs
      · simp
      · rfl
  | trafficUnblock scope user =>
    cases scope with
    | machine => rw [ModeRequest.fileName, if_neg hmachine]
    | user =>
      simp only [ModeRequest.fileName, huser, ModeRequest.content]
      split_ifs
      · simp
      · rfl

/-! ### One request -/

/-- A table that covers the preferences and drops what a request blocks covers those that the
request leaves. Assumes: both. -/
theorem covers_stored {state : Enforcement} (hcovers : state.Covers) {request : ModeRequest}
    (hdrops : state.AlreadyDrops request) (sequence : ℕ) :
    (state.stored request sequence).Covers := by
  have hnone : preferenceDirections .open = ∅ := preferenceDirections_of_open rfl
  intro uid
  have hmachine := Set.Subset.trans Set.subset_union_left (hcovers uid)
  have huser := Set.Subset.trans Set.subset_union_right (hcovers uid)
  rw [stored_table, machineTraffic_stored, userPreference_stored]
  refine Set.union_subset ?_ ?_
  · cases request with
    | trafficBlock scope preference user =>
      cases scope with
      | machine => exact hdrops uid
      | user => exact hmachine
    | trafficUnblock scope user =>
      cases scope with
      | machine =>
        rw [hnone]
        exact Set.empty_subset _
      | user => exact hmachine
    | _ => exact hmachine
  · cases request with
    | trafficBlock scope preference user =>
      cases scope with
      | machine => exact huser
      | user =>
        dsimp only
        split_ifs with hsame
        · rw [← hsame]
          exact hdrops
        · exact huser
    | trafficUnblock scope user =>
      cases scope with
      | machine => exact huser
      | user =>
        dsimp only
        split_ifs
        · rw [hnone]
          exact Set.empty_subset _
        · exact huser
    | _ => exact huser

/-- A block to report asks for a composed table. Assumes: there is one. -/
theorem tableAction_of_reportsBlock {state : Enforcement} (hblock : state.ReportsBlock) :
    tableAction state.machineTraffic state.userBlocks state.rulesMode state.queueBound = .composed
      { machine := state.machineTraffic, users := state.userBlocks,
        rulesActive := decide (state.rulesMode = .active) && !state.machineTraffic.wantsOut,
        queueBound := state.queueBound } := by
  refine tableAction_of_blocked ?_ _ _
  rintro ⟨hmachine, husers⟩
  rcases hblock with hblocked | ⟨uid, hblocked⟩
  · rw [hmachine] at hblocked
    cases hblocked
  · exact List.any_eq_false.mp husers _ (mem_userBlocks hblocked) hblocked

/-- Reapplying the table covers the preferences when the table is replaced. Assumes: the load goes
through, and the table was deleted or there was none. -/
theorem covers_reapplyTable_of_replaced {state : Enforcement} {outcomes : NftOutcomes}
    (hload : outcomes.load = .done) (hdelete : outcomes.delete = .done ∨ state.table = none) :
    (state.reapplyTable outcomes).1.Covers := by
  by_cases hblock : state.ReportsBlock
  · have hnone : (remove outcomes.delete state.table).1 = none := by
      rcases hdelete with hdone | habsent
      · rw [hdone]
        rfl
      · rw [habsent]
        cases outcomes.delete <;> rfl
    refine covers_of_blocked fun packet hopens hblocked ↦ ?_
    replace hblocked : Blocked state.machineTraffic state.userBlocks packet := hblocked
    have hmeaning := (disposition_installComposed
      { machine := state.machineTraffic, users := state.userBlocks,
        rulesActive := decide (state.rulesMode = .active) && !state.machineTraffic.wantsOut,
        queueBound := state.queueBound } none packet).1
    rw [decideRules_hookRules, if_neg (not_not.mpr hopens), if_pos hblocked] at hmeaning
    rw [← hmeaning]
    simp only [reapplyTable, tableAction_of_reportsBlock hblock, TableAction.run, installComposed]
    split_ifs
    · exact congrArg (disposition · packet) hnone
    · rw [hnone, hload]
      rfl
  · exact covers_of_not_reportsBlock hblock

/-- Reapplying the table leaves it alone when neither command goes through, and then answers a block
to report with an error. Assumes: neither does, and there is a block to report. -/
theorem reapplyTable_of_failed {state : Enforcement} (hblock : state.ReportsBlock)
    {outcomes : NftOutcomes} (hload : outcomes.load ≠ .done) (hdelete : outcomes.delete ≠ .done) :
    ∃ error, state.reapplyTable outcomes = (state, .error error) := by
  have hloads : (tableAction state.machineTraffic state.userBlocks state.rulesMode
      state.queueBound).loads = true := by
    rw [loads_tableAction]
    rcases hblock with hmachine | ⟨uid, huser⟩
    · simp [hmachine]
    · have hany : state.userBlocks.any (·.2.isBlocked) = true :=
        List.any_eq_true.mpr ⟨_, mem_userBlocks huser, huser⟩
      simp [hany]
  rw [tableAction_of_reportsBlock hblock, TableAction.loads] at hloads
  simp only [reapplyTable, tableAction_of_reportsBlock hblock, TableAction.run, installComposed]
  rw [if_neg]
  · obtain ⟨error, hfailed⟩ := loadScript_of_ne hload "nft traffic install failed: "
      (composeTrafficScript _) (remove outcomes.delete state.table).1
    rw [hfailed, remove_table_of_ne hdelete]
    exact ⟨error, rfl⟩
  · intro hempty
    obtain ⟨houtput, hinput⟩ := (composeTrafficScript_eq_empty_iff _).mp hempty
    rw [houtput, hinput] at hloads
    cases hloads

/-- A request that honours its blocks covers the preferences if they were covered, and in any case
when it succeeds. Assumes: it honours them, and either. -/
theorem covers_handle {state : Enforcement} {outcomes : RequestOutcomes} {request : ModeRequest}
    (hhonours : state.Honours outcomes request)
    (hbefore : state.Covers ∨ (state.handle outcomes request).2 = .ok ()) :
    (state.handle outcomes request).1.Covers := by
  rcases state.handle_cases outcomes request with
    ⟨hnot, files, error, hhandle⟩ | ⟨⟨haccepts, hstore⟩, hhandle⟩
  · obtain ⟨hmachine, htable, huser⟩ := unchanged_of_not_stored hnot
    rcases hbefore with hcovers | hok
    · intro uid
      rw [hmachine, htable, huser uid]
      exact hcovers uid
    · rw [hhandle] at hok
      cases hok
  · rw [hhandle] at hbefore ⊢
    by_cases hblock : (state.stored request outcomes.sequence).ReportsBlock
    · rcases hhonours haccepts hstore hblock with ⟨hload, hdelete⟩ | ⟨hload, hdelete, hdrops⟩
      · refine covers_reapplyTable_of_replaced hload ?_
        rwa [stored_table]
      · obtain ⟨error, hfailed⟩ := reapplyTable_of_failed hblock hload hdelete
        rw [hfailed] at hbefore ⊢
        rcases hbefore with hcovers | hok
        · exact covers_stored hcovers hdrops outcomes.sequence
        · cases hok
    · exact covers_of_not_reportsBlock hblock

/-! ### Runs -/

/-- One request of a run. -/
def request (state : Enforcement) (op : RequestOutcomes × ModeRequest) : Enforcement :=
  (state.handle op.1 op.2).1

/-- After the first successful request of a run the status is honest in every state, as long as it
and every later request honours its blocks. Assumes: the request at `first` succeeds, and each from
there on honours its blocks. -/
theorem status_honest_of_run (start : Enforcement) (ops : List (RequestOutcomes × ModeRequest))
    {first : ℕ} {outcomes : RequestOutcomes} {change : ModeRequest}
    (hop : ops[first]? = some (outcomes, change))
    (hok : ((Run.stateAt request start ops first).handle outcomes change).2 = .ok ())
    (hhonours : ∀ index op, first ≤ index → ops[index]? = some op →
      (Run.stateAt request start ops index).Honours op.1 op.2) :
    ∀ index, first < index → ∀ uid, (Run.stateAt request start ops index).Honest uid := by
  intro index hlater uid
  have hfirst : (Run.stateAt request start ops (first + 1)).Covers := by
    rw [Run.stateAt_succ request start ops hop]
    exact covers_handle (hhonours first _ le_rfl hop) (.inr hok)
  refine honest_of_covers ?_ uid
  refine Run.stateAt_induction request start ops Covers hfirst
    (fun position hposition _ op hstep hcovers ↦ ?_) index hlater le_rfl
  exact covers_handle (hhonours position op (by omega) hstep) (.inl hcovers)

/-- A daemon that has just started on a host without blocks. -/
def quiet : Enforcement :=
  { files := FiniteMap.empty, paused := true, machineTraffic := .open, bindState := .nfqueue,
    table := none }

/-- The rules are paused, then a machine block cannot be loaded. -/
def rejectedBlock : List (RequestOutcomes × ModeRequest) :=
  [(.success 0, .pause), (⟨.done, 1, rejectedLoad⟩, .trafficBlock .machine .out 0)]

/-- The block is answered with an error and no table is installed, but the status reports it. -/
theorem failed_block_reported :
    (quiet.handle (.success 0) .pause).2 = .ok () ∧
      (∃ error, ((Run.stateAt request quiet rejectedBlock 1).handle ⟨.done, 1, rejectedLoad⟩
        (.trafficBlock .machine .out 0)).2 = .error error) ∧
      (Run.stateAt request quiet rejectedBlock 2).trafficEffective 1000 = "machine:out" ∧
      (Run.stateAt request quiet rejectedBlock 2).table = none ∧
      ¬ (Run.stateAt request quiet rejectedBlock 2).Honest 1000 := by
  have hlabel : (Run.stateAt request quiet rejectedBlock 2).trafficEffective 1000 =
      "machine:out" := by
    decide
  have htable : (Run.stateAt request quiet rejectedBlock 2).table = none := by decide
  refine ⟨by decide, ⟨_, rfl⟩, hlabel, htable, fun hhonest ↦ ?_⟩
  rw [Honest, hlabel, htable] at hhonest
  have hout : Hook.output ∈ labelDirections "machine:out" := by
    change wantsHook .output .out = true
    rfl
  have hdrop := hhonest hout outboundPacket rfl rfl (by decide)
  cases hdrop

/-- A machine block that goes through is reported and in force. -/
theorem status_honest_machine_out :
    ((Run.stateAt request quiet [(.success 0, .trafficBlock .machine .out 0)] 0).handle (.success 0)
        (.trafficBlock .machine .out 0)).2 = .ok () ∧
      (Run.stateAt request quiet [(.success 0, .trafficBlock .machine .out 0)] 1).Honest 1000 := by
  have hok : ((Run.stateAt request quiet [(.success 0, .trafficBlock .machine .out 0)] 0).handle
      (.success 0) (.trafficBlock .machine .out 0)).2 = .ok () := by decide +kernel
  refine ⟨hok, status_honest_of_run quiet _ rfl hok (fun index op _ hop ↦ ?_) 1 one_pos 1000⟩
  obtain ⟨hindex, _⟩ := List.getElem?_eq_some_iff.mp hop
  obtain rfl : index = 0 := by simpa using hindex
  obtain rfl := Option.some.inj hop
  exact fun _ _ _ ↦ .inl ⟨rfl, .inl rfl⟩

end Enforcement

end InterFire
