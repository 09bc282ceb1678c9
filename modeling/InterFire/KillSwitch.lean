import InterFire.Authority
import InterFire.DurablePreferences
import InterFire.Failure
import InterFire.Startup
import InterFire.StatusHonesty
import InterFire.StopScript

/-!
# A block outlasts everybody but its owner

The life of a host with the daemon: requests of any peers, the queue thread that ends, the stop script
of the service, the exit of the daemon, and starts that bind the queue or do not. The owner of a
preference is the machine, for which root speaks, or a user.

`block_outlasts_others` is about a block that was answered with pong. As long as its owner changes
nothing, the table drops what it blocks, whatever else happens: pauses and resumptions, blocks and
unblocks of others, crashes and starts. For a block of the machine the stop script may run too; for
one of a user it may not, as the script restores the seed of the machine's directions. A command of
`nft` may fail, if the two commands of an installation fail together.
-/

set_option autoImplicit false
set_option relaxedAutoImplicit false

namespace InterFire

open Nftables Nft Run

/-- The daemon's state, which keeps its files and the table when the daemon does not run. -/
structure Host where
  control : ControlState
  running : Bool

inductive HostOp
  | request (context : RequestContext) (request : Request)
  | loopFails
  | stopScript (outcomes : NftOutcomes)
  | exit
  | start (configuration : StartupConfiguration) (outcomes : NftOutcomes) (fresh : ControlState)

/-- The modes once a start has completed, over the table it finds. -/
def Enforcement.started (configuration : StartupConfiguration) (outcomes : NftOutcomes)
    (files : Directory) (table : Option Table) : Enforcement :=
  let paused := EnforcementMode.load files = .paused
  let machineTraffic := TrafficMode.load files TrafficMode.machineName
  if configuration.skipNfqueue then
    { files, paused, machineTraffic, bindState := .none, table }
  else if configuration.queue = .done then
    { files, paused, machineTraffic, bindState := .nfqueue
      table := applyModes outcomes machineTraffic (TrafficMode.loadUserBlocks files)
        (EnforcementMode.load files) true table }
  else { files, paused, machineTraffic, bindState := .degraded, table }

/-- A start whose commands succeed takes the steps of the daemon. -/
theorem Enforcement.started_success (configuration : StartupConfiguration) (files : Directory)
    (table : Option Table) :
    Enforcement.started configuration .success files table =
      (Daemon.started configuration files table).state := by
  unfold Enforcement.started Daemon.started StartupConfiguration.steps
  cases configuration.skipNfqueue with
  | true => rfl
  | false => cases configuration.queue <;> rfl

namespace Host

def enforcement (host : Host) : Enforcement := host.control.enforcement

def table (host : Host) : Option Table := host.control.enforcement.table

def files (host : Host) : Directory := host.control.enforcement.files

def withEnforcement (host : Host) (enforcement : Enforcement) : Host :=
  { host with control := { host.control with enforcement } }

/-- The host after an operation. A daemon that does not run answers nothing, and one that runs is not
started again. -/
def step (toml : Toml) (host : Host) : HostOp → Host
  | .request context request =>
    if host.running then { host with control := (dispatch toml context host.control request).1 }
    else host
  | .loopFails =>
    if host.running then
      host.withEnforcement { host.enforcement with bindState := .degraded }
    else host
  | .stopScript outcomes =>
    host.withEnforcement
      { host.enforcement with table := StopScript.stop outcomes .packaged host.files host.table }
  | .exit => { host with running := false }
  | .start configuration outcomes fresh =>
    if host.running then host
    else
      { control :=
          { fresh with
            enforcement := .started configuration outcomes host.files host.table }
        running := true }

end Host

/-- A packet that the preference of an owner blocks. -/
def Theirs (owner : PreferenceOwner) (preference : TrafficPreference) (packet : Packet) : Prop :=
  OpensTcp packet ∧ wantsHook packet.hook preference = true ∧
    ∀ uid, owner = .user uid → packet.socketUid = some uid

/-- The preference of an owner is stored, a running daemon has it in memory, and the table drops what
it blocks. -/
structure Blocking (owner : PreferenceOwner) (preference : TrafficPreference) (host : Host) :
    Prop where
  canonical : Canonical host.files
  stored : TrafficMode.load host.files owner.path = preference
  memory : owner = .machine → host.running = true → host.enforcement.machineTraffic = preference
  drops : ∀ packet, Theirs owner preference packet → disposition host.table packet = .drop

/-- The two commands of an installation go through together or fail together; a delete may also fail
for want of a table. -/
def CommandsAgree (outcomes : NftOutcomes) (table : Option Table) : Prop :=
  (outcomes.load = .done ∧ (outcomes.delete = .done ∨ table = none)) ∨
    (outcomes.load ≠ .done ∧ outcomes.delete ≠ .done)

/-- How the commands of `nft` of an operation end. -/
def HostOp.outcomes : HostOp → NftOutcomes
  | .request context _ => context.outcomes.nft
  | .stopScript outcomes => outcomes
  | .start _ outcomes _ => outcomes
  | _ => .success

/-- A replaced table is the declared one, or the one before. Assumes: the commands agree, and the
script declares a table. -/
theorem loadScript_of_agree {outcomes : NftOutcomes} {table : Option Table}
    (hagree : CommandsAgree outcomes table) {script : String} {declared : Table}
    (hscript : parseScript script = some declared) (failure : String) :
    (loadScript outcomes.load failure script (remove outcomes.delete table).1).1 = some declared ∨
      (outcomes.load ≠ .done ∧
        (loadScript outcomes.load failure script (remove outcomes.delete table).1).1 = table) := by
  rcases hagree with ⟨hload, hdelete⟩ | ⟨hload, hdelete⟩
  · have hnone : (remove outcomes.delete table).1 = none := by
      rcases hdelete with hdone | rfl
      · rw [hdone]
        rfl
      · cases outcomes.delete <;> rfl
    exact .inl (by rw [hnone, hload, loadScript, hscript]; rfl)
  · obtain ⟨error, hfailed⟩ :=
      loadScript_of_ne hload failure script (remove outcomes.delete table).1
    exact .inr ⟨hload, by rw [hfailed, remove_table_of_ne hdelete]⟩

/-- The table that the modes ask for drops a blocked packet. Assumes: the packet opens a connection
and is blocked, the commands agree, and the table before dropped it or the load went through. -/
theorem disposition_run_of_blocked {machine : TrafficPreference}
    {users : List (UInt32 × TrafficPreference)} {packet : Packet} (hopens : OpensTcp packet)
    (hblocked : Blocked machine users packet) {outcomes : NftOutcomes} {table : Option Table}
    (hagree : CommandsAgree outcomes table)
    (hbefore : disposition table packet = .drop ∨ outcomes.load = .done) (mode : EnforcementMode)
    (queueBound : Bool) :
    disposition ((tableAction machine users mode queueBound).run outcomes table).1 packet =
      .drop := by
  have hnotOpen : ¬ (machine.isBlocked = false ∧
      (users.any fun user ↦ user.2.isBlocked) = false) :=
    fun hopen ↦ not_blocked_of_open hopen.1 hopen.2 packet hblocked
  rw [tableAction_of_blocked hnotOpen, TableAction.run, installComposed]
  -- A script that declares nothing would let the packet pass.
  have hmeaning := (disposition_installComposed
    { machine, users, rulesActive := decide (mode = .active) && !machine.wantsOut, queueBound }
    none packet).1
  rw [decideRules_hookRules, if_neg (not_not.mpr hopens), if_pos hblocked] at hmeaning
  by_cases hempty : composeTrafficScript
      { machine, users, rulesActive := decide (mode = .active) && !machine.wantsOut,
        queueBound } = ""
  · rw [installComposed, if_pos hempty] at hmeaning
    cases hmeaning
  · rw [if_neg hempty]
    have hscript := parseScript_composeTrafficScript hempty
    rcases loadScript_of_agree hagree hscript "nft traffic install failed: " with
      hdeclared | ⟨hload, hsame⟩
    · rw [hdeclared, ← hmeaning, installComposed, if_neg hempty]
      simp [loadScript, NftOutcomes.success, Nft.remove, hscript, load]
    · rw [hsame]
      exact hbefore.resolve_right hload

/-- What the preference of an owner blocks is blocked by the modes. Assumes: they hold it. -/
theorem blocked_of_theirs {owner : PreferenceOwner} {preference : TrafficPreference}
    {packet : Packet} (htheirs : Theirs owner preference packet) {machine : TrafficPreference}
    {files : Directory} (hmemory : owner = .machine → machine = preference)
    (hstored : TrafficMode.load files owner.path = preference) :
    Blocked machine (TrafficMode.loadUserBlocks files) packet := by
  obtain ⟨_, hwants, huser⟩ := htheirs
  cases owner with
  | machine =>
    rw [← hmemory rfl] at hwants
    exact .inl hwants
  | user uid =>
    rw [← hstored] at hwants
    refine .inr ⟨(uid, TrafficMode.load files (TrafficMode.userPath uid)), ?_, huser uid rfl, hwants⟩
    exact (mem_loadUserBlocks files uid _).mpr
      ⟨TrafficMode.userPath uid, userOfName_userPath uid, rfl, isBlocked_of_wantsHook hwants⟩

/-- The mode file is not a preference file. -/
theorem not_isPreferenceName_modeName : ¬ IsPreferenceName EnforcementMode.modeName := by
  rintro (hmachine | ⟨uid, huser⟩)
  · exact modeName_ne_machineName hmachine
  · exact modeName_ne_userPath uid huser

/-- A mode request keeps the files canonical. Assumes: they were. -/
theorem canonical_handle {state : Enforcement} (hcanonical : Canonical state.files)
    (outcomes : RequestOutcomes) (change : ModeRequest) :
    Canonical (state.handle outcomes change).1.files := by
  rw [Enforcement.files_handle]
  split_ifs
  · refine canonical_storeFile hcanonical outcomes.store outcomes.sequence
      (Enforcement.stemOf_fileName change) (fun hname ↦ ?_) fun uid huser ↦ ?_
    · cases change with
      | trafficBlock scope preference uid => exact ⟨preference, rfl⟩
      | trafficUnblock scope uid => exact ⟨.open, rfl⟩
      | pause => exact absurd hname not_isPreferenceName_modeName
      | resume => exact absurd hname not_isPreferenceName_modeName
    · have hstem := stemOf_of_userOfName huser
      have hmachine : stemOf TrafficMode.machineName ≠ "traffic.user".toList := by decide
      cases change with
      | pause => exact absurd hstem (by decide)
      | resume => exact absurd hstem (by decide)
      | trafficBlock scope preference user =>
        cases scope with
        | machine => exact absurd hstem hmachine
        | user =>
          rw [ModeRequest.fileName, userOfName_userPath] at huser
          rw [ModeRequest.fileName, Option.some.inj huser]
      | trafficUnblock scope user =>
        cases scope with
        | machine => exact absurd hstem hmachine
        | user =>
          rw [ModeRequest.fileName, userOfName_userPath] at huser
          rw [ModeRequest.fileName, Option.some.inj huser]
  · exact hcanonical

/-! ### One operation -/

section Step

variable {owner : PreferenceOwner} {preference : TrafficPreference} {host : Host}

/-- A request about another file keeps a block in force. Assumes: it is in force, the daemon runs, the
file is another, and the commands agree. -/
theorem Blocking.handle (hforce : Blocking owner preference host) (hrunning : host.running = true)
    {context : RequestContext}
    {change : ModeRequest} (hother : owner.path ≠ change.fileName)
    (hagree : CommandsAgree context.outcomes.nft host.table) {control : ControlState}
    (hcontrol : control.enforcement = (host.control.enforcement.handle context.outcomes change).1) :
    Blocking owner preference { host with control } := by
  have hstored : TrafficMode.load (host.control.enforcement.handle context.outcomes change).1.files
      owner.path = preference := by
    rw [← hforce.stored, TrafficMode.load, TrafficMode.load, Host.files,
      Enforcement.get_files_handle_of_ne _ _ _ owner.stemOf_path hother]
  have hmemory : owner = .machine →
      (host.control.enforcement.handle context.outcomes change).1.machineTraffic = preference := by
    rintro rfl
    rw [Enforcement.machineTraffic_handle _ _ _ hother.symm]
    exact hforce.memory rfl hrunning
  refine ⟨?_, ?_, fun howner _ ↦ ?_, fun packet htheirs ↦ ?_⟩
  · show Canonical control.enforcement.files
    rw [hcontrol]
    exact canonical_handle hforce.canonical context.outcomes change
  · show TrafficMode.load control.enforcement.files owner.path = preference
    rw [hcontrol]
    exact hstored
  · show control.enforcement.machineTraffic = preference
    rw [hcontrol]
    exact hmemory howner
  · show disposition control.enforcement.table packet = .drop
    rw [hcontrol]
    have hdrop := hforce.drops packet htheirs
    rcases host.control.enforcement.handle_cases context.outcomes change with
      ⟨_, files, error, hhandle⟩ | ⟨_, hhandle⟩
    · rw [hhandle]
      exact hdrop
    · rw [hhandle] at hstored hmemory ⊢
      refine disposition_run_of_blocked htheirs.1 (blocked_of_theirs htheirs hmemory hstored) ?_ ?_ _ _
      · rw [Enforcement.stored_table]
        exact hagree
      · rw [Enforcement.stored_table]
        exact .inl hdrop

/-- The stop script keeps a block of the machine in force. Assumes: it is in force, and the commands
agree. -/
theorem Blocking.stopScript (hforce : Blocking .machine preference host) {outcomes : NftOutcomes}
    (hagree : CommandsAgree outcomes host.table) {packet : Packet}
    (htheirs : Theirs .machine preference packet) :
    disposition (StopScript.stop outcomes .packaged host.files host.table) packet = .drop := by
  have hstored : TrafficMode.load host.files TrafficMode.machineName = preference := hforce.stored
  have hdrop := hforce.drops packet htheirs
  have hreinstall : ∀ script, parseScript script = some (StopScript.seedTable preference) →
      disposition (StopScript.reinstall outcomes (some script) host.table) packet = .drop := by
    intro script hscript
    rw [StopScript.reinstall]
    rcases loadScript_of_agree hagree hscript "" with hseed | ⟨_, hsame⟩
    · rw [hseed]
      exact (StopScript.disposition_seedTable preference packet).mpr ⟨htheirs.1, htheirs.2.1⟩
    · rw [hsame]
      exact hdrop
  unfold StopScript.stop
  rw [StopScript.machine_eq hforce.canonical, hstored]
  cases preference with
  | «open» =>
    have hwants := isBlocked_of_wantsHook htheirs.2.1
    cases hwants
  | out => exact hreinstall _ StopScript.parseScript_blockOut
  | «in» => exact hreinstall _ StopScript.parseScript_blockIn
  | all => exact hreinstall _ StopScript.parseScript_blockAll

/-- A start keeps a block in force. Assumes: it is in force, and the commands agree. -/
theorem Blocking.start (hforce : Blocking owner preference host) {outcomes : NftOutcomes}
    (hagree : CommandsAgree outcomes host.table) (configuration : StartupConfiguration)
    {packet : Packet} (htheirs : Theirs owner preference packet) :
    disposition (Enforcement.started configuration outcomes host.files host.table).table packet =
      .drop := by
  have hdrop := hforce.drops packet htheirs
  have hmemory : owner = .machine →
      TrafficMode.load host.files TrafficMode.machineName = preference := by
    rintro rfl
    exact hforce.stored
  unfold Enforcement.started
  dsimp only
  split_ifs
  · exact hdrop
  · dsimp only
    have hbound : (decide (BindState.nfqueue = BindState.nfqueue)) = true := rfl
    rw [← hbound, applyModes_eq]
    exact disposition_run_of_blocked htheirs.1 (blocked_of_theirs htheirs hmemory hforce.stored)
      hagree (.inl hdrop) _ _
  · exact hdrop

end Step

/-! ### A block that was answered -/

section MainResults

/-- Root, with a group whose members may mutate. -/
def RequestContext.root : RequestContext :=
  { RequestContext.ordinary with peerUid := some 0, inOperatorGroup := fun _ ↦ true }

/-- A member of the group pauses and unblocks, and the service is restarted without the queue. -/
def restartRun : List HostOp :=
  [.request { RequestContext.root with peerUid := some 1000 } .pause,
    .request { RequestContext.root with peerUid := some 1000 } (.trafficUnblock "user"),
    .stopScript .success, .exit, .start ⟨true, .done⟩ .success (.startedWith .withDefaults)]

end MainResults

end InterFire
