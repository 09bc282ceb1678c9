import Mathlib.Data.List.Sort
import InterFire.Library.FiniteMap
import InterFire.Library.Text

/-!
# Traffic preferences and the enforcement mode

`crates/interfire-daemon/src/traffic_mode.rs` and `enforcement_mode.rs`: the kill-switch preference
of the machine and of each user, the label of the preference in force, and the files that persist
them. The state directory is a map from file names to contents; `traffic.machine`,
`traffic.user.<uid>` and `enforcement.mode` are the names under the packaged state directory.

A store writes a temporary sibling and renames it over the file, so the file changes at once or not
at all (`StoreOutcome`). `get_storeFile_done` says what is read after a store, and
`mem_loadUserBlocks` which blocks are listed.
-/

set_option autoImplicit false
set_option relaxedAutoImplicit false

namespace InterFire

/-! ### Preferences -/

/-- The kill-switch preference of one scope. -/
inductive TrafficPreference
  | «open»
  | out
  | «in»
  | all
  deriving DecidableEq, Repr

namespace TrafficPreference

def asStr : TrafficPreference → String
  | .open => "open"
  | .out => "out"
  | .in => "in"
  | .all => "all"

def parse (raw : String) : Option TrafficPreference :=
  match String.ofList (Text.trim raw.toList) with
  | "open" => some .open
  | "out" => some .out
  | "in" => some .in
  | "all" => some .all
  | _ => none

def isBlocked (preference : TrafficPreference) : Bool := preference ≠ .open

def wantsOut (preference : TrafficPreference) : Bool := preference = .out || preference = .all

def wantsIn (preference : TrafficPreference) : Bool := preference = .in || preference = .all

/-- A preference is blocked exactly when it wants some direction. -/
theorem isBlocked_eq (preference : TrafficPreference) :
    preference.isBlocked = (preference.wantsOut || preference.wantsIn) := by
  cases preference <;> rfl

end TrafficPreference

/-- The scope whose preference is in force. -/
inductive EffectiveTraffic
  | «open»
  | machine (preference : TrafficPreference)
  | user (uid : UInt32) (preference : TrafficPreference)
  deriving DecidableEq, Repr

/-- The label of the status response. -/
def EffectiveTraffic.label : EffectiveTraffic → String
  | .open => "open"
  | .machine preference => "machine:" ++ preference.asStr
  | .user uid preference => "user:" ++ toString uid.toNat ++ ":" ++ preference.asStr

/-- The machine preference wins; the user preference applies only when the machine is open. -/
def effective (machine user : TrafficPreference) (uid : UInt32) : EffectiveTraffic :=
  if machine.isBlocked then .machine machine
  else if user.isBlocked then .user uid user
  else .open

/-- The mode the operator selected for the rules. -/
inductive EnforcementMode
  | paused
  | active
  deriving DecidableEq, Repr

namespace EnforcementMode

def asStr : EnforcementMode → String
  | .paused => "paused"
  | .active => "active"

def parse (raw : String) : Option EnforcementMode :=
  match String.ofList (Text.trim raw.toList) with
  | "paused" => some .paused
  | "active" => some .active
  | _ => none

end EnforcementMode

/-! ### Files -/

/-- The files of the state directory by name. -/
abbrev Directory := FiniteMap String String

/-- How writing a file through a temporary sibling ends: done, or failed with what is left in the
sibling. -/
inductive StoreOutcome
  | done
  | failed (error : String) (leftover : Option String)
  deriving DecidableEq, Repr

/-- The name of the temporary sibling: the extension of the name is replaced. -/
def temporaryName (name : String) (sequence : ℕ) : String :=
  let stem := (name.toList.reverse.dropWhile (· ≠ '.')).drop 1
  String.ofList stem.reverse ++ ".tmp." ++ toString sequence

/-- Write a file through a temporary sibling. -/
def storeFile (outcome : StoreOutcome) (sequence : ℕ) (name content : String)
    (directory : Directory) : Directory × Except String Unit :=
  let temporary := temporaryName name sequence
  match outcome with
  | .done => (((directory.insert temporary content).remove temporary).insert name content, .ok ())
  | .failed error none => (directory, .error error)
  | .failed error (some leftover) => (directory.insert temporary leftover, .error error)

namespace TrafficMode

def machineName : String := "traffic.machine"

def userStem : String := "traffic.user."

/-- The file of one user's preference. -/
def userPath (uid : UInt32) : String := userStem ++ toString uid.toNat

/-- The preference in a file; a missing or invalid one is open. -/
def load (directory : Directory) (name : String) : TrafficPreference :=
  ((directory.get name).bind TrafficPreference.parse).getD .open

def store (outcome : StoreOutcome) (sequence : ℕ) (name : String) (preference : TrafficPreference)
    (directory : Directory) : Directory × Except String Unit :=
  storeFile outcome sequence name (preference.asStr ++ "\n") directory

/-- The user of a file name. -/
def userOfName (name : String) : Option UInt32 := do
  let uid ← name.toList.dropPrefix? userStem.toList
  let uid ← Text.parseUnsigned (2 ^ 32) uid
  return UInt32.ofNat uid

/-- Every preference of a user that is not open, by increasing user. -/
def loadUserBlocks (directory : Directory) : List (UInt32 × TrafficPreference) :=
  (directory.keys.filterMap fun name ↦ do
    let uid ← userOfName name
    let preference := load directory name
    if preference.isBlocked then some (uid, preference) else none).insertionSort
      fun first second ↦ first.1 ≤ second.1

/-- A block of the machine or of a user is stored. -/
def anyBlockActive (directory : Directory) : Bool :=
  (load directory machineName).isBlocked || !(loadUserBlocks directory).isEmpty

end TrafficMode

namespace EnforcementMode

def modeName : String := "enforcement.mode"

/-- The mode in the mode file; a missing or invalid one is paused. -/
def load (directory : Directory) : EnforcementMode :=
  ((directory.get modeName).bind EnforcementMode.parse).getD .paused

def store (outcome : StoreOutcome) (sequence : ℕ) (mode : EnforcementMode)
    (directory : Directory) : Directory × Except String Unit :=
  storeFile outcome sequence modeName (mode.asStr ++ "\n") directory

end EnforcementMode

/-! ### What is read after a store -/

@[simp] theorem TrafficPreference.parse_asStr (preference : TrafficPreference) :
    TrafficPreference.parse (preference.asStr ++ "\n") = some preference := by
  cases preference <;> decide

@[simp] theorem EnforcementMode.parse_asStr (mode : EnforcementMode) :
    EnforcementMode.parse (mode.asStr ++ "\n") = some mode := by
  cases mode <;> decide

/-- A file that is not there reads as open. Assumes: the file reads as blocked. -/
theorem isSome_get_of_isBlocked {directory : Directory} {name : String}
    (hblocked : (TrafficMode.load directory name).isBlocked = true) :
    (directory.get name).isSome := by
  by_contra hmissing
  rw [Option.not_isSome_iff_eq_none] at hmissing
  simp [TrafficMode.load, hmissing, TrafficPreference.isBlocked] at hblocked

/-- The membership form of the list of user blocks. -/
theorem mem_loadUserBlocks (directory : Directory) (uid : UInt32)
    (preference : TrafficPreference) :
    (uid, preference) ∈ TrafficMode.loadUserBlocks directory ↔
      ∃ name, TrafficMode.userOfName name = some uid ∧
        TrafficMode.load directory name = preference ∧ preference.isBlocked = true := by
  rw [TrafficMode.loadUserBlocks, List.mem_insertionSort, List.mem_filterMap]
  constructor
  · rintro ⟨name, _, hname⟩
    simp only [Option.bind_eq_bind, Option.bind_eq_some_iff] at hname
    obtain ⟨user, huser, hblocked⟩ := hname
    split_ifs at hblocked with hisBlocked
    obtain ⟨rfl, rfl⟩ := Prod.mk.inj (Option.some.inj hblocked)
    exact ⟨name, huser, rfl, hisBlocked⟩
  · rintro ⟨name, huser, rfl, hisBlocked⟩
    refine ⟨name, ?_, by simp [huser, hisBlocked]⟩
    rw [FiniteMap.mem_keys_iff]
    exact isSome_get_of_isBlocked hisBlocked

/-! ### File names -/

/-- The part of a name before its last dot. -/
def stemOf (name : String) : List Char :=
  ((name.toList.reverse.dropWhile (· ≠ '.')).drop 1).reverse

/-- The last dot separates the stem from the extension. Assumes: the extension has no dot. -/
theorem stemOf_of_extension {name : String} {stem extension : List Char}
    (hname : name.toList = stem ++ '.' :: extension) (hdot : '.' ∉ extension) :
    stemOf name = stem := by
  have hall : ∀ character ∈ extension.reverse, (decide (character ≠ '.')) = true := by
    intro character hmem
    have hne : character ≠ '.' := fun heq ↦ hdot (heq ▸ List.mem_reverse.mp hmem)
    simpa using hne
  rw [stemOf, hname, List.reverse_append, List.reverse_cons, List.append_assoc,
    List.dropWhile_append_of_pos hall]
  simp

theorem stemOf_userPath (uid : UInt32) :
    stemOf (TrafficMode.userPath uid) = "traffic.user".toList :=
  stemOf_of_extension (by simp [TrafficMode.userPath, TrafficMode.userStem, toString,
    Nat.toList_repr]) (Text.not_mem_toDigits (by decide) uid.toNat)

theorem stemOf_temporaryName (name : String) (sequence : ℕ) :
    stemOf (temporaryName name sequence) = stemOf name ++ ".tmp".toList :=
  stemOf_of_extension (by simp [temporaryName, stemOf, toString, Nat.toList_repr])
    (Text.not_mem_toDigits (by decide) sequence)

/-- The stems of the files that the daemon keeps. -/
def stateStems : List (List Char) :=
  ["traffic".toList, "enforcement".toList, "traffic.user".toList]

theorem stemOf_modeName_mem : stemOf EnforcementMode.modeName ∈ stateStems := by decide

theorem stemOf_machineName_mem : stemOf TrafficMode.machineName ∈ stateStems := by decide

theorem stemOf_userPath_mem (uid : UInt32) : stemOf (TrafficMode.userPath uid) ∈ stateStems := by
  rw [stemOf_userPath]
  decide

/-- A temporary file does not have the stem of a kept one. Assumes: it is that of a kept file. -/
theorem stemOf_temporaryName_not_mem {name : String} (hname : stemOf name ∈ stateStems)
    (sequence : ℕ) : stemOf (temporaryName name sequence) ∉ stateStems := by
  rw [stemOf_temporaryName]
  revert hname
  generalize stemOf name = stem
  simp only [stateStems, List.mem_cons, List.not_mem_nil, or_false]
  rintro (rfl | rfl | rfl) <;> decide

/-- No file that the daemon keeps has the name of a temporary one. Assumes: both stems are those of
kept files. -/
theorem ne_temporaryName {name other : String} (hname : stemOf name ∈ stateStems)
    (hother : stemOf other ∈ stateStems) (sequence : ℕ) : other ≠ temporaryName name sequence := by
  rintro rfl
  exact stemOf_temporaryName_not_mem hname sequence hother

/-- What is read after a store that went through. -/
theorem get_storeFile_done (sequence : ℕ) (name content : String) (directory : Directory)
    (other : String) :
    (storeFile .done sequence name content directory).1.get other =
      if other = name then some content
      else if other = temporaryName name sequence then none
      else directory.get other := by
  simp only [storeFile, FiniteMap.get_insert, FiniteMap.get_remove]
  split_ifs <;> rfl

/-- What is read after a store that failed is what was there, but for the temporary file. Assumes:
the file is not the temporary one. -/
theorem get_storeFile_failed {error : String} {leftover : Option String} {sequence : ℕ}
    {name content other : String} (directory : Directory)
    (hother : other ≠ temporaryName name sequence) :
    (storeFile (.failed error leftover) sequence name content directory).1.get other =
      directory.get other := by
  cases leftover with
  | none => rfl
  | some leftover => exact FiniteMap.get_insert_of_ne directory hother leftover

/-- The user of a user's file. -/
theorem userOfName_userPath (uid : UInt32) :
    TrafficMode.userOfName (TrafficMode.userPath uid) = some uid := by
  have hname : (TrafficMode.userPath uid).toList =
      TrafficMode.userStem.toList ++ Nat.toDigits 10 uid.toNat := by
    simp [TrafficMode.userPath, toString, Nat.toList_repr]
  have hdrop : (TrafficMode.userPath uid).toList.dropPrefix? TrafficMode.userStem.toList =
      some (Nat.toDigits 10 uid.toNat) := by
    rw [hname]
    exact List.dropPrefix?_append_of_beq _ (by simp)
  rw [TrafficMode.userOfName, hdrop]
  simp [Text.parseUnsigned_toDigits uid.toNat_lt]

theorem userPath_injective {uid other : UInt32}
    (heq : TrafficMode.userPath uid = TrafficMode.userPath other) : uid = other := by
  have husers := congrArg TrafficMode.userOfName heq
  rw [userOfName_userPath, userOfName_userPath] at husers
  exact Option.some.inj husers

/-- A file with another stem is not that of a user. Assumes: the stem is another one. -/
theorem ne_userPath {name : String} (hstem : stemOf name ≠ "traffic.user".toList) (uid : UInt32) :
    name ≠ TrafficMode.userPath uid := by
  rintro rfl
  exact hstem (stemOf_userPath uid)

theorem modeName_ne_userPath (uid : UInt32) : EnforcementMode.modeName ≠ TrafficMode.userPath uid :=
  ne_userPath (by decide) uid

theorem machineName_ne_userPath (uid : UInt32) :
    TrafficMode.machineName ≠ TrafficMode.userPath uid :=
  ne_userPath (by decide) uid

theorem modeName_ne_machineName : EnforcementMode.modeName ≠ TrafficMode.machineName := by decide

end InterFire
