import InterFire.StateDirectory

/-!
# Stopping the daemon

`packaging/scripts/interfire-nft-stop.sh` runs when the daemon has stopped. It reads the machine
preference and the user files of the state directory, and it either installs one of three packaged
seed tables or deletes the owned table. The texts of the seeds are those of `packaging/nft/`; each
of them is the composed table of a machine block without users (`parseScript_blockOut` and so on).

A machine block selects the seed of its own directions and leaves the users out.
`stop_keeps_drops_iff` says for which directories what the daemon dropped is still dropped
afterwards.
-/

set_option autoImplicit false
set_option relaxedAutoImplicit false

namespace InterFire

open Nftables Nft

namespace StopScript

/-! ### The script -/

/-- The characters of the class `space`. -/
def isSpace (character : Char) : Bool :=
  character == ' ' || (9 ≤ character.toNat && character.toNat ≤ 13)

/-- A text without its white space, as `tr -d` leaves it. -/
def deleteSpace (content : String) : String :=
  String.ofList (content.toList.filter fun character ↦ !isSpace character)

/-- The machine preference as the script reads it. -/
def machine (directory : Directory) : String :=
  match directory.get TrafficMode.machineName with
  | some content => deleteSpace content
  | none => "open"

/-- Some file whose name begins like a user's holds a block. -/
def hasUser (directory : Directory) : Bool :=
  directory.keys.any fun name ↦
    TrafficMode.userStem.toList <+: name.toList &&
      (directory.get name).any fun content ↦ deleteSpace content ∈ ["out", "in", "all"]

/-- The seed files, each with its text when it is there. -/
structure Seeds where
  blockOut : Option String
  blockIn : Option String
  blockAll : Option String
  deriving DecidableEq, Repr

/-- Replace the table by a seed, if its file is there. -/
def reinstall (outcomes : NftOutcomes) (seed : Option String) (table : Option Table) :
    Option Table :=
  match seed with
  | some script => (loadScript outcomes.load "" script (Nft.remove outcomes.delete table).1).1
  | none => table

/-- The table that the script leaves. -/
def stop (outcomes : NftOutcomes) (seeds : Seeds) (directory : Directory) (table : Option Table) :
    Option Table :=
  match machine directory with
  | "all" => reinstall outcomes seeds.blockAll table
  | "in" => reinstall outcomes seeds.blockIn table
  | "out" => reinstall outcomes seeds.blockOut table
  | _ =>
    if hasUser directory then reinstall outcomes seeds.blockAll table
    else (Nft.remove outcomes.delete table).1

/-! ### The packaged seeds -/

/-- The rules of a seed chain after the one for the loopback interface. -/
def seedRulesText : String :=
  "    ct state established,related accept\n" ++ "    meta l4proto tcp ct state new drop\n"

def outputSeedText : String :=
  "  chain output \x7b\n    type filter hook output priority filter; policy accept;\n" ++
    ("    oifname \"lo\" accept\n" ++ seedRulesText) ++ "  \x7d\n"

def inputSeedText : String :=
  "  chain input \x7b\n    type filter hook input priority filter; policy accept;\n" ++
    ("    iifname \"lo\" accept\n" ++ seedRulesText) ++ "  \x7d\n"

def blockOutText : String :=
  "# InterFire traffic Block: machine outbound (fail-closed, no NFQUEUE).\n" ++
    "table inet interfire \x7b\n" ++ outputSeedText ++ "\x7d\n"

def blockInText : String :=
  "# InterFire traffic Block: machine inbound (fail-closed, no NFQUEUE).\n" ++
    "table inet interfire \x7b\n" ++ inputSeedText ++ "\x7d\n"

def blockAllText : String :=
  "# InterFire traffic Block: machine inbound+outbound (fail-closed, no NFQUEUE).\n" ++
    "table inet interfire \x7b\n" ++ (outputSeedText ++ inputSeedText) ++ "\x7d\n"

/-- The seeds of the package. -/
def Seeds.packaged : Seeds := ⟨some blockOutText, some blockInText, some blockAllText⟩

/-- The table of a machine block without users. -/
def seedTable (preference : TrafficPreference) : Table :=
  composedTable { machine := preference, users := [], rulesActive := false, queueBound := false }

theorem readsRules_seedRulesText : ReadsRules seedRulesText [establishedRule, dropRule] :=
  readsRules_append
    (readsRules_of_line ["ct", "state", "established,related", "accept"] establishedRule
      (endsLine_of_getLast? (by decide)) (by decide) (by decide) (by decide))
    (readsRules_of_line ["meta", "l4proto", "tcp", "ct", "state", "new", "drop"] dropRule
      (endsLine_of_getLast? (by decide)) (by decide) (by decide) (by decide))

theorem readsChains_outputSeedText : ReadsChains outputSeedText
    [⟨"output", .output, .accept, [loopbackOutRule, establishedRule, dropRule]⟩] :=
  readsChains_of_readsRules (endsLine_of_getLast? (by decide)) (endsLine_of_getLast? (by decide))
    (fun _ _ ↦ by
      have hlines : scriptLines
          "  chain output \x7b\n    type filter hook output priority filter; policy accept;\n" =
          [["chain", "output", "\x7b"], ["type", "filter", "hook", "output", "priority", "filter;",
            "policy", "accept;"]] := by decide
      rw [hlines]
      rfl)
    (readsRules_append (readsRules_of_line ["oifname", "\"lo\"", "accept"] loopbackOutRule
      (endsLine_of_getLast? (by decide)) (by decide) (by decide) (by decide))
      readsRules_seedRulesText)
    (by decide)

theorem readsChains_inputSeedText : ReadsChains inputSeedText
    [⟨"input", .input, .accept, [loopbackInRule, establishedRule, dropRule]⟩] :=
  readsChains_of_readsRules (endsLine_of_getLast? (by decide)) (endsLine_of_getLast? (by decide))
    (fun _ _ ↦ by
      have hlines : scriptLines
          "  chain input \x7b\n    type filter hook input priority filter; policy accept;\n" =
          [["chain", "input", "\x7b"], ["type", "filter", "hook", "input", "priority", "filter;",
            "policy", "accept;"]] := by decide
      rw [hlines]
      rfl)
    (readsRules_append (readsRules_of_line ["iifname", "\"lo\"", "accept"] loopbackInRule
      (endsLine_of_getLast? (by decide)) (by decide) (by decide) (by decide))
      readsRules_seedRulesText)
    (by decide)

/-- The head of a seed: a comment line and the head of the table. Assumes: the comment is one. -/
theorem scriptLines_seedHead {comment : String} (hend : EndsLine comment)
    (hcomment : scriptLines comment = []) :
    scriptLines (comment ++ "table inet interfire \x7b\n") =
      [["table", "inet", "interfire", "\x7b"]] := by
  rw [scriptLines_append hend, hcomment]
  decide

theorem parseScript_blockOut : parseScript blockOutText = some (seedTable .out) :=
  have hend : EndsLine "# InterFire traffic Block: machine outbound (fail-closed, no NFQUEUE).\n" :=
    endsLine_of_getLast? (by decide)
  parseScript_of_readsChains (endsLine_append hend (endsLine_of_getLast? (by decide)))
    (scriptLines_seedHead hend (by decide)) readsChains_outputSeedText (by decide)

theorem parseScript_blockIn : parseScript blockInText = some (seedTable .in) :=
  have hend : EndsLine "# InterFire traffic Block: machine inbound (fail-closed, no NFQUEUE).\n" :=
    endsLine_of_getLast? (by decide)
  parseScript_of_readsChains (endsLine_append hend (endsLine_of_getLast? (by decide)))
    (scriptLines_seedHead hend (by decide)) readsChains_inputSeedText (by decide)

theorem parseScript_blockAll : parseScript blockAllText = some (seedTable .all) :=
  have hend : EndsLine
      "# InterFire traffic Block: machine inbound+outbound (fail-closed, no NFQUEUE).\n" :=
    endsLine_of_getLast? (by decide)
  parseScript_of_readsChains (endsLine_append hend (endsLine_of_getLast? (by decide)))
    (scriptLines_seedHead hend (by decide))
    (readsChains_append readsChains_outputSeedText readsChains_inputSeedText) (by decide)

/-- A seed that is installed replaces the table. Assumes: the seed declares a table. -/
theorem reinstall_success {script : String} {declared : Table}
    (hscript : parseScript script = some declared) (table : Option Table) :
    reinstall .success (some script) table = some declared := by
  simp [reinstall, loadScript, NftOutcomes.success, Nft.remove, hscript, load]

/-- A seed drops what opens connections in the directions of its preference. -/
theorem disposition_seedTable (preference : TrafficPreference) (packet : Packet) :
    disposition (some (seedTable preference)) packet = .drop ↔
      OpensTcp packet ∧ wantsHook packet.hook preference = true := by
  rw [seedTable, disposition_composedTable, decideRules_hookRules]
  by_cases hopens : OpensTcp packet
  · simp [hopens, Blocked]
  · simp [hopens]

/-! ### What is still dropped -/

/-- The preference whose seed is left: the machine's, or all directions for any user's block. -/
def kept (directory : Directory) : TrafficPreference :=
  let stored := TrafficMode.load directory TrafficMode.machineName
  if stored.isBlocked then stored else if hasUser directory then .all else .open

theorem deleteSpace_asStr (preference : TrafficPreference) :
    deleteSpace (preference.asStr ++ "\n") = preference.asStr := by
  cases preference <;> decide

/-- The script reads the machine preference that the daemon reads. Assumes: the directory is
canonical. -/
theorem machine_eq {directory : Directory} (hcanonical : Canonical directory) :
    machine directory = (TrafficMode.load directory TrafficMode.machineName).asStr := by
  unfold machine TrafficMode.load
  cases hget : directory.get TrafficMode.machineName with
  | none => rfl
  | some content =>
    obtain ⟨preference, rfl⟩ := hcanonical.content _ content (.inl rfl) hget
    simp [deleteSpace_asStr]

/-- The script sees a user's block. Assumes: the directory is canonical, and the user's file holds a
block. -/
theorem hasUser_of_isBlocked {directory : Directory} (hcanonical : Canonical directory)
    {uid : UInt32}
    (hblocked : (TrafficMode.load directory (TrafficMode.userPath uid)).isBlocked = true) :
    hasUser directory = true := by
  obtain ⟨content, hget⟩ := Option.isSome_iff_exists.mp (isSome_get_of_isBlocked hblocked)
  obtain ⟨preference, rfl⟩ := hcanonical.content _ content (.inr ⟨uid, rfl⟩) hget
  have hload : TrafficMode.load directory (TrafficMode.userPath uid) = preference := by
    simp [TrafficMode.load, hget]
  rw [hload] at hblocked
  refine List.any_eq_true.mpr ⟨TrafficMode.userPath uid, ?_, ?_⟩
  · rw [FiniteMap.mem_keys_iff]
    exact isSome_get_of_isBlocked (by rwa [hload])
  · have hstem : TrafficMode.userStem.toList <+: (TrafficMode.userPath uid).toList := by
      rw [TrafficMode.userPath, String.toList_append]
      exact List.prefix_append _ _
    simp only [hstem, decide_true, Bool.true_and, hget, Option.any_some, deleteSpace_asStr]
    cases preference with
    | «open» => cases hblocked
    | out => decide
    | «in» => decide
    | all => decide

/-- The table that the script leaves. Assumes: the directory is canonical. -/
theorem stop_success {directory : Directory} (hcanonical : Canonical directory)
    (table : Option Table) :
    stop .success .packaged directory table =
      if (kept directory).isBlocked then some (seedTable (kept directory)) else none := by
  unfold stop kept
  rw [machine_eq hcanonical]
  cases TrafficMode.load directory TrafficMode.machineName with
  | «open» =>
    cases hasUser directory with
    | true =>
      simp [TrafficPreference.asStr, TrafficPreference.isBlocked, Seeds.packaged,
        reinstall_success parseScript_blockAll]
    | false =>
      simp [TrafficPreference.asStr, TrafficPreference.isBlocked, NftOutcomes.success, Nft.remove]
  | out =>
    simp [TrafficPreference.asStr, TrafficPreference.isBlocked, Seeds.packaged,
      reinstall_success parseScript_blockOut]
  | «in» =>
    simp [TrafficPreference.asStr, TrafficPreference.isBlocked, Seeds.packaged,
      reinstall_success parseScript_blockIn]
  | all =>
    simp [TrafficPreference.asStr, TrafficPreference.isBlocked, Seeds.packaged,
      reinstall_success parseScript_blockAll]

/-- What the table that the script leaves drops. Assumes: the directory is canonical. -/
theorem disposition_stop {directory : Directory} (hcanonical : Canonical directory)
    (table : Option Table) (packet : Packet) :
    disposition (stop .success .packaged directory table) packet = .drop ↔
      OpensTcp packet ∧ wantsHook packet.hook (kept directory) = true := by
  rw [stop_success hcanonical]
  split_ifs with hblocked
  · exact disposition_seedTable (kept directory) packet
  · refine iff_of_false (fun hdrop ↦ ?_) fun hkept ↦ hblocked (isBlocked_of_wantsHook hkept.2)
    cases hdrop

/-- What the daemon drops by the preferences of a directory is still dropped by the table that the
script leaves, whatever table there was. -/
def StopKeepsDrops (directory : Directory) : Prop :=
  ∀ (mode : EnforcementMode) (bindState : BindState) (prior table : Option Table)
    (packet : Packet),
    disposition ((tableAction (TrafficMode.load directory TrafficMode.machineName)
      (TrafficMode.loadUserBlocks directory) mode (bindState = .nfqueue)).run .success prior).1
        packet = .drop →
    disposition (stop .success .packaged directory table) packet = .drop

/-- What the daemon drops by its preferences. -/
theorem disposition_run_eq_drop_iff (machine : TrafficPreference)
    (users : List (UInt32 × TrafficPreference)) (mode : EnforcementMode) (bindState : BindState)
    (prior : Option Table) (packet : Packet) :
    disposition ((tableAction machine users mode (bindState = .nfqueue)).run .success prior).1
        packet = .drop ↔ OpensTcp packet ∧ Blocked machine users packet := by
  rw [(disposition_tableAction machine users mode bindState prior packet).1, intended]
  by_cases hopens : OpensTcp packet
  · rw [if_neg (not_not.mpr hopens), drop_iff_of_blocked]
    exact (and_iff_right hopens).symm
  · simp [hopens]

/-- Stopping keeps what the daemon dropped exactly when the machine is open or every stored user
preference blocks only directions that the machine blocks. Assumes: the files are those that the
daemon wrote. -/
theorem stop_keeps_drops_iff {directory : Directory} (hwritten : Written directory) :
    StopKeepsDrops directory ↔
      TrafficMode.load directory TrafficMode.machineName = .open ∨
        ∀ uid, ((TrafficMode.load directory (TrafficMode.userPath uid)).wantsOut = true →
            (TrafficMode.load directory TrafficMode.machineName).wantsOut = true) ∧
          ((TrafficMode.load directory (TrafficMode.userPath uid)).wantsIn = true →
            (TrafficMode.load directory TrafficMode.machineName).wantsIn = true) := by
  have hcanonical := canonical_of_written hwritten
  have husers := mem_loadUserBlocks_iff hcanonical
  simp only [StopKeepsDrops, disposition_run_eq_drop_iff, disposition_stop hcanonical]
  by_cases hopen : TrafficMode.load directory TrafficMode.machineName = .open
  · refine iff_of_true (fun _ _ _ _ packet hdrop ↦ ⟨hdrop.1, ?_⟩) (.inl hopen)
    rw [hopen] at hdrop
    rcases hdrop.2 with hmachine | ⟨⟨uid, preference⟩, hmem, _, hwants⟩
    · cases hhook : packet.hook <;> simp [hhook, wantsHook, TrafficPreference.wantsOut,
        TrafficPreference.wantsIn] at hmachine
    · -- A user's block makes the script restore the seed of all directions.
      obtain ⟨hload, hblocked⟩ := (husers uid preference).mp hmem
      have hseen := hasUser_of_isBlocked hcanonical (hload.symm ▸ hblocked)
      have hkept : kept directory = .all := by
        simp [kept, hopen, hseen, TrafficPreference.isBlocked]
      rw [hkept]
      cases packet.hook <;> rfl
  · have hblocked : (TrafficMode.load directory TrafficMode.machineName).isBlocked = true := by
      simpa [TrafficPreference.isBlocked] using hopen
    have hkept : kept directory = TrafficMode.load directory TrafficMode.machineName := by
      simp [kept, hblocked]
    rw [hkept, or_iff_right hopen]
    constructor
    · intro hkeeps uid
      have hhook (hook : Hook)
          (hwants : wantsHook hook (TrafficMode.load directory (TrafficMode.userPath uid)) = true) :
          wantsHook hook (TrafficMode.load directory TrafficMode.machineName) = true := by
        have hopens : OpensTcp ⟨hook, "eth0", .tcp, .new, some uid⟩ := by
          simp [OpensTcp]
        have huser := (husers uid _).mpr ⟨rfl, isBlocked_of_wantsHook hwants⟩
        exact (hkeeps .paused .none none none _ ⟨hopens, .inr ⟨_, huser, rfl, hwants⟩⟩).2
      exact ⟨hhook .output, hhook .input⟩
    · rintro hsubset _ _ _ _ packet ⟨hopens, hmachine | ⟨⟨uid, preference⟩, hmem, _, hwants⟩⟩
      · exact ⟨hopens, hmachine⟩
      · obtain ⟨rfl, _⟩ := (husers uid preference).mp hmem
        refine ⟨hopens, ?_⟩
        cases hhook : packet.hook with
        | output => exact (hsubset uid).1 (by rwa [hhook] at hwants)
        | input => exact (hsubset uid).2 (by rwa [hhook] at hwants)

/-- The directory in which a machine preference and then the preference of one user are stored. -/
def storedBoth (machine user : TrafficPreference) : Directory :=
  (TrafficMode.store .done 1 (TrafficMode.userPath 1000) user
    (TrafficMode.store .done 0 TrafficMode.machineName machine FiniteMap.empty).1).1

theorem written_storedBoth (machine user : TrafficPreference) : Written (storedBoth machine user) :=
  .user .done 1 1000 user (.machine .done 0 machine .empty)

theorem load_storedBoth (machine user : TrafficPreference) :
    TrafficMode.load (storedBoth machine user) TrafficMode.machineName = machine ∧
      TrafficMode.load (storedBoth machine user) (TrafficMode.userPath 1000) = user := by
  have hmachine := stemOf_machineName_mem
  have huser := stemOf_userPath_mem 1000
  unfold storedBoth
  rw [load_store_done huser hmachine, if_neg (by decide), load_store_done hmachine hmachine,
    if_pos rfl, load_store_done huser huser, if_pos rfl]
  exact ⟨rfl, rfl⟩

/-- A machine that blocks all directions and a user that blocks one. -/
theorem stop_keeps_drops_iff_machineAll : StopKeepsDrops (storedBoth .all .out) := by
  refine (stop_keeps_drops_iff (written_storedBoth .all .out)).mpr (.inr fun uid ↦ ?_)
  rw [(load_storedBoth .all .out).1]
  exact ⟨fun _ ↦ rfl, fun _ ↦ rfl⟩

/-- A machine that blocks what comes in and a user that blocks what goes out: after the stop the
user's outgoing connections, which the daemon dropped, are accepted. -/
theorem stop_lifts_user_block :
    Written (storedBoth .in .out) ∧
      disposition ((tableAction (TrafficMode.load (storedBoth .in .out) TrafficMode.machineName)
        (TrafficMode.loadUserBlocks (storedBoth .in .out)) .paused
        (BindState.none = .nfqueue)).run .success none).1
          ⟨.output, "eth0", .tcp, .new, some 1000⟩ = .drop ∧
      disposition (stop .success .packaged (storedBoth .in .out) none)
        ⟨.output, "eth0", .tcp, .new, some 1000⟩ = .accept ∧
      ¬ StopKeepsDrops (storedBoth .in .out) := by
  obtain ⟨hmachine, huser⟩ := load_storedBoth .in .out
  have hcanonical := canonical_of_written (written_storedBoth .in .out)
  have hdrop : disposition ((tableAction
      (TrafficMode.load (storedBoth .in .out) TrafficMode.machineName)
      (TrafficMode.loadUserBlocks (storedBoth .in .out)) .paused
      (BindState.none = .nfqueue)).run .success none).1
        ⟨.output, "eth0", .tcp, .new, some 1000⟩ = .drop := by
    rw [disposition_run_eq_drop_iff]
    exact ⟨by decide, .inr ⟨(1000, .out), (mem_loadUserBlocks_iff hcanonical 1000 .out).mpr
      ⟨huser, rfl⟩, rfl, rfl⟩⟩
  have haccept : disposition (stop .success .packaged (storedBoth .in .out) none)
      ⟨.output, "eth0", .tcp, .new, some 1000⟩ = .accept := by
    have hkept : kept (storedBoth .in .out) = .in := by
      simp [kept, hmachine, TrafficPreference.isBlocked]
    rw [stop_success hcanonical, hkept]
    decide
  refine ⟨written_storedBoth .in .out, hdrop, haccept, fun hkeeps ↦ ?_⟩
  have hafter := hkeeps .paused .none none none _ hdrop
  rw [haccept] at hafter
  cases hafter

end StopScript

end InterFire
