import InterFire.TableMeaning

/-!
# The state directory

Nothing but the two `store` functions writes to the state directory. `Written` are the directories
that come from an empty one by such stores, among them stores that failed and left a temporary file.
`canonical_of_written` is what they keep: a preference file holds a preference as `store` writes it,
and a file that is read as a user's is the file of that user. `Written.userBlocks` are then the
preferences of the users with the blocks that are listed, and `trafficEffective_truthful_iff` is the
truth of the label that a status response reports.
-/

set_option autoImplicit false
set_option relaxedAutoImplicit false

namespace InterFire

open Nftables Nft

/-- A directory to which only preferences and modes have been stored. -/
inductive Written : Directory → Prop
  | empty : Written FiniteMap.empty
  | machine {directory : Directory} (outcome : StoreOutcome) (sequence : ℕ)
      (preference : TrafficPreference) (hwritten : Written directory) :
      Written (TrafficMode.store outcome sequence TrafficMode.machineName preference directory).1
  | user {directory : Directory} (outcome : StoreOutcome) (sequence : ℕ) (uid : UInt32)
      (preference : TrafficPreference) (hwritten : Written directory) :
      Written (TrafficMode.store outcome sequence (TrafficMode.userPath uid) preference directory).1
  | mode {directory : Directory} (outcome : StoreOutcome) (sequence : ℕ) (mode : EnforcementMode)
      (hwritten : Written directory) :
      Written (EnforcementMode.store outcome sequence mode directory).1

/-- A name whose file is a preference file. -/
def IsPreferenceName (name : String) : Prop :=
  name = TrafficMode.machineName ∨ ∃ uid, name = TrafficMode.userPath uid

/-- Preference files hold preferences, and what is read as a user's file is the user's. -/
structure Canonical (directory : Directory) : Prop where
  content : ∀ name content, IsPreferenceName name → directory.get name = some content →
    ∃ preference : TrafficPreference, content = preference.asStr ++ "\n"
  name : ∀ name uid, (directory.get name).isSome → TrafficMode.userOfName name = some uid →
    name = TrafficMode.userPath uid

/-- The file of a user has the stem of user files. Assumes: the name is read as a user's. -/
theorem stemOf_of_userOfName {name : String} {uid : UInt32}
    (huser : TrafficMode.userOfName name = some uid) : stemOf name = "traffic.user".toList := by
  simp only [TrafficMode.userOfName, Option.bind_eq_bind, Option.bind_eq_some_iff] at huser
  obtain ⟨numeral, hdrop, value, hvalue, _⟩ := huser
  obtain ⟨stem, hname, hstem⟩ := List.dropPrefix?_eq_some_iff.mp hdrop
  have hdot : '.' ∉ numeral := by
    intro hmem
    rcases Text.isDigit_of_parseUnsigned hvalue '.' hmem with hplus | hdigit
    · exact absurd hplus (by decide)
    · exact absurd hdigit (by decide)
  refine stemOf_of_extension ?_ hdot
  rw [hname, beq_iff_eq.mp hstem]
  rfl

theorem stemOf_of_isPreferenceName {name : String} (hname : IsPreferenceName name) :
    stemOf name ∈ stateStems := by
  rcases hname with rfl | ⟨uid, rfl⟩
  · exact stemOf_machineName_mem
  · exact stemOf_userPath_mem uid

/-- A store keeps the files canonical. Assumes: they were, and the file that is stored is. -/
theorem canonical_storeFile {directory : Directory} (hcanonical : Canonical directory)
    (outcome : StoreOutcome) (sequence : ℕ) {name content : String}
    (hstem : stemOf name ∈ stateStems)
    (hcontent : IsPreferenceName name →
      ∃ preference : TrafficPreference, content = preference.asStr ++ "\n")
    (huser : ∀ uid, TrafficMode.userOfName name = some uid → name = TrafficMode.userPath uid) :
    Canonical (storeFile outcome sequence name content directory).1 := by
  constructor
  · intro other found hother hget
    have hne := ne_temporaryName hstem (stemOf_of_isPreferenceName hother) sequence
    cases outcome with
    | done =>
      rw [get_storeFile_done, if_neg hne] at hget
      split_ifs at hget with heq
      · rw [← Option.some.inj hget]
        exact hcontent (heq ▸ hother)
      · exact hcanonical.content other found hother hget
    | failed error leftover =>
      rw [get_storeFile_failed directory hne] at hget
      exact hcanonical.content other found hother hget
  · intro other uid hsome huid
    -- A temporary file is never read as a user's.
    have hne : other ≠ temporaryName name sequence := by
      refine ne_temporaryName hstem ?_ sequence
      rw [stemOf_of_userOfName huid]
      decide
    cases outcome with
    | done =>
      rw [get_storeFile_done, if_neg hne] at hsome
      split_ifs at hsome with heq
      · rw [heq] at huid ⊢
        exact huser uid huid
      · exact hcanonical.name other uid hsome huid
    | failed error leftover =>
      rw [get_storeFile_failed directory hne] at hsome
      exact hcanonical.name other uid hsome huid

/-- A name with another stem is not read as a user's. Assumes: the stem is another. -/
theorem userOfName_of_stem_ne {name : String} (hstem : stemOf name ≠ "traffic.user".toList)
    (uid : UInt32) : TrafficMode.userOfName name = some uid → name = TrafficMode.userPath uid :=
  fun huser ↦ absurd (stemOf_of_userOfName huser) hstem

/-- The directories that the daemon writes are canonical. Assumes: the directory is one. -/
theorem canonical_of_written {directory : Directory} (hwritten : Written directory) :
    Canonical directory := by
  induction hwritten with
  | empty =>
    refine ⟨fun name content _ hget ↦ ?_, fun name uid hsome _ ↦ ?_⟩
    · simp at hget
    · simp at hsome
  | machine outcome sequence preference _ ih =>
    exact canonical_storeFile ih outcome sequence (by decide) (fun _ ↦ ⟨preference, rfl⟩)
      (userOfName_of_stem_ne (by decide))
  | user outcome sequence uid preference _ ih =>
    refine canonical_storeFile ih outcome sequence ?_ (fun _ ↦ ⟨preference, rfl⟩) ?_
    · exact stemOf_of_isPreferenceName (.inr ⟨uid, rfl⟩)
    · intro other hother
      rw [userOfName_userPath] at hother
      rw [Option.some.inj hother]
  | mode outcome sequence mode _ ih =>
    refine canonical_storeFile ih outcome sequence (by decide) (fun hname ↦ ?_)
      (userOfName_of_stem_ne (by decide))
    -- The mode file is not a preference file.
    rcases hname with hmachine | ⟨uid, huser⟩
    · exact absurd hmachine (by decide)
    · have hstem := congrArg stemOf huser
      rw [stemOf_userPath] at hstem
      exact absurd hstem (by decide)

/-- The preference that a file holds after a store that went through. Assumes: both names are those
of kept files. -/
theorem load_store_done {name other : String} (hname : stemOf name ∈ stateStems)
    (hother : stemOf other ∈ stateStems) (sequence : ℕ) (preference : TrafficPreference)
    (directory : Directory) :
    TrafficMode.load (TrafficMode.store .done sequence name preference directory).1 other =
      if other = name then preference else TrafficMode.load directory other := by
  unfold TrafficMode.load TrafficMode.store
  rw [get_storeFile_done, if_neg (ne_temporaryName hname hother sequence)]
  split_ifs
  · simp
  · rfl

/-- The blocks that are listed are those in the users' own files. Assumes: the directory is
canonical. -/
theorem mem_loadUserBlocks_iff {directory : Directory} (hcanonical : Canonical directory)
    (uid : UInt32) (preference : TrafficPreference) :
    (uid, preference) ∈ TrafficMode.loadUserBlocks directory ↔
      TrafficMode.load directory (TrafficMode.userPath uid) = preference ∧
        preference.isBlocked = true := by
  rw [mem_loadUserBlocks]
  constructor
  · rintro ⟨name, huser, rfl, hblocked⟩
    obtain rfl := hcanonical.name name uid (isSome_get_of_isBlocked hblocked) huser
    exact ⟨rfl, hblocked⟩
  · rintro ⟨hload, hblocked⟩
    exact ⟨TrafficMode.userPath uid, userOfName_userPath uid, hload, hblocked⟩

/-- The preferences of the users in a directory that the daemon has written. -/
def Written.userBlocks {directory : Directory} (hwritten : Written directory) : UserBlocks where
  preference uid := TrafficMode.load directory (TrafficMode.userPath uid)
  entries := TrafficMode.loadUserBlocks directory
  mem_entries := mem_loadUserBlocks_iff (canonical_of_written hwritten)

/-- The label of a status response tells the truth about the table that is reapplied exactly when
the machine is open or blocks every direction that the user blocks. Assumes: the files are those
that the daemon wrote. -/
theorem trafficEffective_truthful_iff {state : Enforcement} (hwritten : Written state.files)
    (uid : UInt32) :
    dropDirections (state.reapplyTable .success).1.table uid =
        labelDirections (state.trafficEffective uid) ↔
      state.machineTraffic = .open ∨
        (((state.userPreference uid).wantsOut = true → state.machineTraffic.wantsOut = true) ∧
          ((state.userPreference uid).wantsIn = true → state.machineTraffic.wantsIn = true)) := by
  have hdrops : dropDirections (state.reapplyTable .success).1.table uid =
      preferenceDirections state.machineTraffic ∪
        preferenceDirections (hwritten.userBlocks.preference uid) := by
    refine dropDirections_of_blocked (fun packet hopens ↦ ?_) uid
    rw [(disposition_reapplyTable state packet).1, intended, if_neg (not_not.mpr hopens)]
    exact drop_iff_of_blocked
  rw [hdrops]
  exact directions_eq_label_iff state.machineTraffic (state.userPreference uid) uid

end InterFire
