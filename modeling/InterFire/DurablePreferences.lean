import InterFire.Library.Run
import InterFire.StateDirectory

/-!
# Durable traffic preferences

A call of `traffic_mode::store` is a sequence of file operations: the state directory is created,
the temporary sibling is written, and the sibling is renamed over the preference file. A
`PreferenceStore` is the daemon between two of those operations. `StoreStep` are the requests that
make a call, what becomes of the next file operation, and a crash with the restart that follows it.
`exists_outcome_of_steps` connects a call that returns with the function `TrafficMode.store`.

`Sound` is the invariant: a file is the preference file of its owner or a temporary sibling, and a
call that is about to rename has its whole content in the sibling. The files are then a map from the
owners to the preferences that were renamed last (`preferences_durable`).
-/

set_option autoImplicit false
set_option relaxedAutoImplicit false

namespace InterFire

/-! ### File operations -/

/-- Whose preference a file holds. -/
inductive PreferenceOwner
  | machine
  | user (uid : UInt32)
  deriving DecidableEq, Repr

/-- The preference file of an owner. -/
def PreferenceOwner.path : PreferenceOwner → String
  | .machine => TrafficMode.machineName
  | .user uid => TrafficMode.userPath uid

/-- The owner that a request names. -/
def TrafficScope.owner (scope : TrafficScope) (uid : UInt32) : PreferenceOwner :=
  match scope with
  | .machine => .machine
  | .user => .user uid

/-- The file operation that a call of `store` makes next. -/
inductive StorePhase
  | ensureParent
  | write (temporary : String)
  | rename (temporary : String)
  deriving DecidableEq, Repr

/-- A call of `store` that has not returned. -/
structure StoreCall where
  owner : PreferenceOwner
  preference : TrafficPreference
  phase : StorePhase
  deriving DecidableEq, Repr

def StoreCall.content (call : StoreCall) : String := call.preference.asStr ++ "\n"

/-- The state directory, the sequence of temporary names of the process, and its call. -/
structure PreferenceStore where
  files : Directory
  sequence : UInt64
  call : Option StoreCall

/-- A request, the end of the next file operation, or a crash. A write may get only part of the
content to the file before it ends. -/
inductive StoreStep
  | block (scope : TrafficScope) (preference : TrafficPreference) (uid : UInt32)
  | unblock (scope : TrafficScope) (uid : UInt32)
  | succeed
  | writePart (length : ℕ)
  | fail
  | crash
  deriving DecidableEq, Repr

namespace PreferenceStore

/-- The empty state directory. -/
def start : PreferenceStore := { files := .empty, sequence := 0, call := none }

/-- Call `store`, when no call is under way. -/
def begin (store : PreferenceStore) (owner : PreferenceOwner) (preference : TrafficPreference) :
    PreferenceStore :=
  if store.call.isSome then store
  else { store with call := some { owner, preference, phase := .ensureParent } }

/-- The next file operation of the call goes through. -/
def succeed (store : PreferenceStore) : PreferenceStore :=
  match store.call with
  | none => store
  | some call =>
    match call.phase with
    | .ensureParent =>
      let temporary := temporaryName call.owner.path store.sequence.toNat
      { store with
        sequence := store.sequence + 1
        call := some { call with phase := .write temporary } }
    | .write temporary =>
      { store with
        files := store.files.insert temporary call.content
        call := some { call with phase := .rename temporary } }
    | .rename temporary =>
      match store.files.rename temporary call.owner.path with
      | some files => { store with files, call := none }
      | none => { store with call := none }

/-- The write of the call gets a part of the content to the file. -/
def writePart (store : PreferenceStore) (length : ℕ) : PreferenceStore :=
  match store.call with
  | some { owner := _, preference, phase := .write temporary } =>
    let part := String.ofList ((preference.asStr ++ "\n").toList.take length)
    { store with files := store.files.insert temporary part }
  | _ => store

def step (store : PreferenceStore) : StoreStep → PreferenceStore
  | .block scope preference uid =>
    if preference = .open then store else store.begin (scope.owner uid) preference
  | .unblock scope uid => store.begin (scope.owner uid) .open
  | .succeed => store.succeed
  | .writePart length => store.writePart length
  | .fail => { store with call := none }
  | .crash => { store with sequence := 0, call := none }

/-- The preference that a step renames over the file of an owner. -/
def renamed (owner : PreferenceOwner) (store : PreferenceStore) (step : StoreStep) :
    Option TrafficPreference :=
  match step, store.call with
  | .succeed, some { owner := other, preference, phase := .rename temporary } =>
    if other = owner ∧ (store.files.get temporary).isSome then some preference else none
  | _, _ => none

end PreferenceStore

/-! ### Names -/

theorem PreferenceOwner.path_injective : Function.Injective PreferenceOwner.path := by
  intro owner other heq
  cases owner with
  | machine =>
    cases other with
    | machine => rfl
    | user uid => exact absurd heq (machineName_ne_userPath uid)
  | user uid =>
    cases other with
    | machine => exact absurd heq.symm (machineName_ne_userPath uid)
    | user uid' => rw [userPath_injective heq]

theorem PreferenceOwner.stemOf_path (owner : PreferenceOwner) : stemOf owner.path ∈ stateStems := by
  cases owner with
  | machine => exact stemOf_machineName_mem
  | user uid => exact stemOf_userPath_mem uid

/-- A temporary sibling of a preference file. -/
def IsTemporary (name : String) : Prop :=
  ∃ (owner : PreferenceOwner) (sequence : ℕ), name = temporaryName owner.path sequence

theorem IsTemporary.stemOf_not_mem {name : String} (htemporary : IsTemporary name) :
    stemOf name ∉ stateStems := by
  obtain ⟨owner, sequence, rfl⟩ := htemporary
  exact stemOf_temporaryName_not_mem owner.stemOf_path sequence

theorem IsTemporary.ne_path {name : String} (htemporary : IsTemporary name)
    (owner : PreferenceOwner) : owner.path ≠ name := by
  rintro rfl
  exact htemporary.stemOf_not_mem owner.stemOf_path

/-- A temporary sibling is not read as the file of a user. -/
theorem IsTemporary.userOfName_eq_none {name : String} (htemporary : IsTemporary name) :
    TrafficMode.userOfName name = none := by
  cases huser : TrafficMode.userOfName name with
  | none => rfl
  | some uid =>
    have hstem : stemOf name ∈ stateStems := by
      rw [stemOf_of_userOfName huser]
      decide
    exact absurd hstem htemporary.stemOf_not_mem

/-! ### The invariant -/

namespace PreferenceStore

/-- The files are preference files of their owners and temporary siblings. -/
def FilesSound (files : Directory) : Prop :=
  ∀ name content, files.get name = some content →
    (∃ (owner : PreferenceOwner) (preference : TrafficPreference),
      name = owner.path ∧ content = preference.asStr ++ "\n") ∨ IsTemporary name

/-- The next file operation of a call works on a temporary sibling, which holds the whole content
when it is about to be renamed. -/
def CallSound (files : Directory) (call : StoreCall) : Prop :=
  match call.phase with
  | .ensureParent => True
  | .write temporary => IsTemporary temporary
  | .rename temporary => IsTemporary temporary ∧ files.get temporary = some call.content

structure Sound (store : PreferenceStore) : Prop where
  files : FilesSound store.files
  call : ∀ call, store.call = some call → CallSound store.files call

theorem sound_start : start.Sound := by
  refine ⟨fun name content hget ↦ ?_, fun call hcall ↦ ?_⟩
  · rw [start, FiniteMap.get_empty] at hget
    cases hget
  · cases hcall

/-- Writing to a temporary sibling keeps the files sound. Assumes: they are, and it is one. -/
theorem FilesSound.insert_temporary {files : Directory} (hfiles : FilesSound files)
    {temporary : String} (htemporary : IsTemporary temporary) (content : String) :
    FilesSound (files.insert temporary content) := by
  intro name found hget
  rw [FiniteMap.get_insert] at hget
  split_ifs at hget with hname
  · exact .inr (hname ▸ htemporary)
  · exact hfiles name found hget

/-- Renaming a complete sibling keeps the files sound. Assumes: they are. -/
theorem FilesSound.rename {files : Directory} (hfiles : FilesSound files) (call : StoreCall)
    (temporary : String) :
    FilesSound ((files.remove temporary).insert call.owner.path call.content) := by
  intro name content hget
  rw [FiniteMap.get_insert, FiniteMap.get_remove] at hget
  split_ifs at hget with hpath htemporary
  · exact .inl ⟨call.owner, call.preference, hpath, (Option.some.inj hget).symm⟩
  · exact hfiles name content hget

theorem sound_begin {store : PreferenceStore} (hsound : store.Sound) (owner : PreferenceOwner)
    (preference : TrafficPreference) : (store.begin owner preference).Sound := by
  unfold begin
  split_ifs
  · exact hsound
  · refine ⟨hsound.files, fun call hcall ↦ ?_⟩
    obtain rfl := Option.some.inj hcall
    trivial

/-- The end of a call keeps the invariant. Assumes: it holds. -/
theorem Sound.idle {store : PreferenceStore} (hsound : store.Sound) (sequence : UInt64) :
    Sound { store with sequence, call := none } := by
  refine ⟨hsound.files, fun call hcall ↦ ?_⟩
  cases hcall

theorem sound_succeed {store : PreferenceStore} (hsound : store.Sound) : store.succeed.Sound := by
  unfold succeed
  split
  · exact hsound
  · next call hcall =>
    have hcallSound := hsound.call call hcall
    unfold CallSound at hcallSound
    split
    · next hphase =>
      refine ⟨hsound.files, fun later hlater ↦ ?_⟩
      obtain rfl := Option.some.inj hlater
      exact ⟨call.owner, store.sequence.toNat, rfl⟩
    · next temporary hphase =>
      simp only [hphase] at hcallSound
      refine ⟨hsound.files.insert_temporary hcallSound _, fun later hlater ↦ ?_⟩
      obtain rfl := Option.some.inj hlater
      exact ⟨hcallSound, FiniteMap.get_insert_self _ _ _⟩
    · next temporary hphase =>
      simp only [hphase] at hcallSound
      rw [FiniteMap.rename_of_get hcallSound.2]
      refine ⟨hsound.files.rename call temporary, fun later hlater ↦ ?_⟩
      cases hlater

theorem sound_writePart {store : PreferenceStore} (hsound : store.Sound) (length : ℕ) :
    (store.writePart length).Sound := by
  unfold writePart
  split
  · next owner preference temporary hcall =>
    have htemporary : IsTemporary temporary := hsound.call _ hcall
    refine ⟨hsound.files.insert_temporary htemporary _, fun later hlater ↦ ?_⟩
    obtain rfl := Option.some.inj (hcall.symm.trans hlater)
    exact htemporary
  · exact hsound

/-- Every step keeps the invariant. Assumes: it holds. -/
theorem sound_step (store : PreferenceStore) (step : StoreStep) (hsound : store.Sound) :
    (store.step step).Sound := by
  cases step with
  | block scope preference uid =>
    simp only [PreferenceStore.step]
    split_ifs
    · exact hsound
    · exact sound_begin hsound (scope.owner uid) preference
  | unblock scope uid => exact sound_begin hsound (scope.owner uid) .open
  | succeed => exact sound_succeed hsound
  | writePart length => exact sound_writePart hsound length
  | fail => exact hsound.idle store.sequence
  | crash => exact hsound.idle 0

/-! ### What a step does to the file of an owner -/

theorem files_begin (store : PreferenceStore) (owner : PreferenceOwner)
    (preference : TrafficPreference) : (store.begin owner preference).files = store.files := by
  unfold begin
  split_ifs <;> rfl

/-- A step changes the file of an owner exactly by a rename over it. Assumes: the invariant. -/
theorem get_path_step (owner : PreferenceOwner) (store : PreferenceStore) (step : StoreStep)
    (hsound : store.Sound) :
    (store.step step).files.get owner.path =
      ((renamed owner store step).map (·.asStr ++ "\n")).or (store.files.get owner.path) := by
  cases step with
  | block scope preference uid =>
    simp only [PreferenceStore.step]
    split_ifs
    · rfl
    · rw [files_begin]
      rfl
  | unblock scope uid =>
    simp only [PreferenceStore.step]
    rw [files_begin]
    rfl
  | fail => rfl
  | crash => rfl
  | writePart length =>
    change (store.writePart length).files.get owner.path = store.files.get owner.path
    unfold writePart
    split
    · next other preference temporary hcall =>
      have htemporary : IsTemporary temporary := hsound.call _ hcall
      exact FiniteMap.get_insert_of_ne _ (htemporary.ne_path owner) _
    · rfl
  | succeed =>
    change store.succeed.files.get owner.path = _
    unfold succeed renamed
    cases hcall : store.call with
    | none => rfl
    | some call =>
      have hcallSound := hsound.call call hcall
      obtain ⟨other, preference, phase⟩ := call
      cases phase with
      | ensureParent => rfl
      | write temporary =>
        have htemporary : IsTemporary temporary := hcallSound
        exact FiniteMap.get_insert_of_ne _ (htemporary.ne_path owner) _
      | rename temporary =>
        obtain ⟨htemporary, hcontent⟩ := hcallSound
        simp only [FiniteMap.rename_of_get hcontent, hcontent, Option.isSome_some, and_true,
          FiniteMap.get_insert, FiniteMap.get_remove, if_neg (htemporary.ne_path owner)]
        by_cases howner : owner = other
        · subst howner
          simp [StoreCall.content]
        · have hne : ¬ owner.path = other.path :=
            fun heq ↦ howner (PreferenceOwner.path_injective heq)
          simp [hne, Ne.symm howner]

/-- The preference of the last rename over the file of an owner. -/
def lastRenamed (owner : PreferenceOwner) (steps : List StoreStep) (index : ℕ) :
    Option TrafficPreference :=
  (Run.log step (renamed owner) start steps index).getLast?

theorem sound_stateAt (steps : List StoreStep) (index : ℕ) :
    (Run.stateAt step start steps index).Sound :=
  Run.stateAt_invariant step start steps Sound sound_start sound_step index

/-- The file of an owner holds the preference that was renamed over it last. -/
theorem get_path_stateAt (owner : PreferenceOwner) (steps : List StoreStep) (index : ℕ) :
    (Run.stateAt step start steps index).files.get owner.path =
      (lastRenamed owner steps index).map (·.asStr ++ "\n") := by
  have hlast := Run.view_stateAt step (renamed owner) start steps Sound (·.asStr ++ "\n")
    (fun store ↦ store.files.get owner.path) sound_start sound_step (get_path_step owner) index
  have hstart : start.files.get owner.path = none := FiniteMap.get_empty _
  rw [hlast, hstart, Option.or_none, lastRenamed]

/-- Sound files are canonical. Assumes: they are sound. -/
theorem FilesSound.canonical {files : Directory} (hfiles : FilesSound files) : Canonical files := by
  constructor
  · intro name content hname hget
    rcases hfiles name content hget with ⟨owner, preference, _, rfl⟩ | htemporary
    · exact ⟨preference, rfl⟩
    · exact absurd (stemOf_of_isPreferenceName hname) htemporary.stemOf_not_mem
  · intro name uid hsome huser
    obtain ⟨content, hget⟩ := Option.isSome_iff_exists.mp hsome
    rcases hfiles name content hget with ⟨owner, preference, rfl, _⟩ | htemporary
    · cases owner with
      | machine => exact userOfName_of_stem_ne (by decide) uid huser
      | user other =>
        have hother : TrafficMode.userOfName (TrafficMode.userPath other) = some uid := huser
        rw [userOfName_userPath] at hother
        rw [← Option.some.inj hother]
        rfl
    · rw [htemporary.userOfName_eq_none] at huser
      cases huser

end PreferenceStore

/-! ### The list of the user blocks -/

/-- The blocks are listed by increasing user, each user once. Assumes: the files are canonical. -/
theorem pairwise_loadUserBlocks {directory : Directory} (hcanonical : Canonical directory) :
    (TrafficMode.loadUserBlocks directory).Pairwise fun first second ↦ first.1 < second.1 := by
  set block : String → Option (UInt32 × TrafficPreference) := fun name ↦ do
    let uid ← TrafficMode.userOfName name
    let preference := TrafficMode.load directory name
    if preference.isBlocked then some (uid, preference) else none with hblock
  have hsorted : (TrafficMode.loadUserBlocks directory).Pairwise
      fun first second ↦ first.1 ≤ second.1 := List.pairwise_insertionSort _ _
  -- Two files of one user would be one file.
  have hdistinct : (directory.keys.filterMap block).Pairwise
      fun first second ↦ first.1 ≠ second.1 := by
    rw [List.pairwise_filterMap]
    refine (AList.keys_nodup directory).imp_of_mem ?_
    intro name other hname hother hne entry hentry entry' hentry' heq
    have huser : ∀ {file : String} {found : UInt32 × TrafficPreference}, block file = some found →
        TrafficMode.userOfName file = some found.1 := by
      intro file found hfound
      simp only [hblock, Option.bind_eq_bind, Option.bind_eq_some_iff] at hfound
      obtain ⟨uid, huid, hblocked⟩ := hfound
      split_ifs at hblocked
      rw [← Option.some.inj hblocked]
      exact huid
    have hpath := hcanonical.name name entry.1 ((directory.mem_keys_iff name).mp hname)
      (huser hentry)
    have hpath' := hcanonical.name other entry'.1 ((directory.mem_keys_iff other).mp hother)
      (huser hentry')
    exact hne (by rw [hpath, hpath', heq])
  have hperm := List.perm_insertionSort
    (fun first second : UInt32 × TrafficPreference ↦ first.1 ≤ second.1)
    (directory.keys.filterMap block)
  have hne : (TrafficMode.loadUserBlocks directory).Pairwise
      fun first second ↦ first.1 ≠ second.1 := hperm.pairwise_iff (fun h ↦ h.symm) |>.mpr hdistinct
  exact (hsorted.and hne).imp fun h ↦ UInt32.lt_of_le_of_ne h.1 h.2

/-! ### A call as one function -/

/-- The step is the end of a file operation, or a part of a write. -/
def StoreStep.IsOperation : StoreStep → Prop
  | .succeed => True
  | .writePart _ => True
  | .fail => True
  | _ => False

namespace PreferenceStore

/-- The files during a call, from the files and the sequence before it; after the call they are
those that `TrafficMode.store` leaves. -/
def During (files : Directory) (sequence : UInt64) (owner : PreferenceOwner)
    (preference : TrafficPreference) (store : PreferenceStore) : Prop :=
  match store.call with
  | none => ∃ outcome, store.files =
      (TrafficMode.store outcome sequence.toNat owner.path preference files).1
  | some call => call.owner = owner ∧ call.preference = preference ∧
    match call.phase with
    | .ensureParent => store.files = files ∧ store.sequence = sequence
    | .write temporary => temporary = temporaryName owner.path sequence.toNat ∧
        (store.files = files ∨ ∃ part, store.files = files.insert temporary part)
    | .rename temporary => temporary = temporaryName owner.path sequence.toNat ∧
        store.files = files.insert temporary (preference.asStr ++ "\n")

section During

variable {files : Directory} {sequence : UInt64} {owner : PreferenceOwner}
  {preference : TrafficPreference} {store : PreferenceStore}

/-- A file operation that fails ends the call. Assumes: the call is under way or has ended. -/
theorem During.fail (hduring : During files sequence owner preference store) :
    During files sequence owner preference { store with call := none } := by
  unfold During at hduring
  split at hduring
  · exact hduring
  · obtain ⟨_, _, hphase⟩ := hduring
    split at hphase
    · exact ⟨.failed "" none, hphase.1⟩
    · obtain ⟨rfl, hfiles | ⟨part, hfiles⟩⟩ := hphase
      · exact ⟨.failed "" none, hfiles⟩
      · exact ⟨.failed "" (some part), hfiles⟩
    · obtain ⟨rfl, hfiles⟩ := hphase
      exact ⟨.failed "" (some _), hfiles⟩

theorem During.writePart (hduring : During files sequence owner preference store) (length : ℕ) :
    During files sequence owner preference (store.writePart length) := by
  unfold PreferenceStore.writePart
  split
  · next other written temporary hcall =>
    simp only [During, hcall] at hduring ⊢
    obtain ⟨rfl, rfl, rfl, hfiles | ⟨part, hfiles⟩⟩ := hduring
    · exact ⟨rfl, rfl, rfl, .inr ⟨_, by rw [hfiles]⟩⟩
    · exact ⟨rfl, rfl, rfl, .inr ⟨_, by rw [hfiles, FiniteMap.insert_insert]⟩⟩
  · exact hduring

theorem During.succeed (hduring : During files sequence owner preference store) :
    During files sequence owner preference store.succeed := by
  cases hcall : store.call with
  | none =>
    have hsame : store.succeed = store := by simp only [PreferenceStore.succeed, hcall]
    rw [hsame]
    exact hduring
  | some call =>
    obtain ⟨other, written, phase⟩ := call
    simp only [During, hcall] at hduring
    obtain ⟨rfl, rfl, hphase⟩ := hduring
    cases phase with
    | ensureParent =>
      obtain ⟨hfiles, hsequence⟩ := hphase
      simp only [PreferenceStore.succeed, hcall, During]
      exact ⟨trivial, trivial, by rw [hsequence], .inl hfiles⟩
    | write temporary =>
      obtain ⟨rfl, hfiles⟩ := hphase
      simp only [PreferenceStore.succeed, hcall, During]
      refine ⟨trivial, trivial, trivial, ?_⟩
      rcases hfiles with hfiles | ⟨part, hfiles⟩
      · rw [hfiles, StoreCall.content]
      · rw [hfiles, FiniteMap.insert_insert, StoreCall.content]
    | rename temporary =>
      obtain ⟨rfl, hfiles⟩ := hphase
      have hget : store.files.get (temporaryName other.path sequence.toNat) =
          some (written.asStr ++ "\n") := by rw [hfiles, FiniteMap.get_insert_self]
      simp only [PreferenceStore.succeed, hcall, FiniteMap.rename_of_get hget, During]
      exact ⟨.done, by rw [hfiles]; rfl⟩

end During

/-- A call that returned left the files as `TrafficMode.store` leaves them, whatever became of its
file operations. Assumes: no call was under way before it, its steps are those of its file
operations, and it returned. -/
theorem exists_outcome_of_steps {store : PreferenceStore} (hidle : store.call = none)
    (owner : PreferenceOwner) (preference : TrafficPreference) {steps : List StoreStep}
    (hsteps : ∀ step ∈ steps, step.IsOperation)
    (hreturned : (steps.foldl step (store.begin owner preference)).call = none) :
    ∃ outcome, (steps.foldl step (store.begin owner preference)).files =
      (TrafficMode.store outcome store.sequence.toNat owner.path preference store.files).1 := by
  have hduring : ∀ before, During store.files store.sequence owner preference before →
      During store.files store.sequence owner preference (steps.foldl step before) := by
    clear hreturned
    induction steps with
    | nil => exact fun before hbefore ↦ hbefore
    | cons first rest ih =>
      intro before hbefore
      refine ih (fun step hstep ↦ hsteps step (List.mem_cons_of_mem _ hstep)) _ ?_
      have hfirst := hsteps first List.mem_cons_self
      cases first with
      | succeed => exact hbefore.succeed
      | writePart length => exact hbefore.writePart length
      | fail => exact hbefore.fail
      | _ => exact absurd hfirst id
  have hbegin : During store.files store.sequence owner preference
      (store.begin owner preference) := by
    simp only [begin, hidle, Option.isSome_none, Bool.false_eq_true, if_false, During]
    exact ⟨trivial, trivial, trivial, trivial⟩
  have hend := hduring _ hbegin
  simp only [During, hreturned] at hend
  exact hend

/-! ### The map of the preferences -/

/-- After every sequence of calls, with any file operation failing and a crash at any point, the
machine has the preference that was renamed last, and the user blocks are listed by increasing user,
each user once, and are exactly the preferences renamed last that are not open. A file that was not
renamed is a temporary sibling, which is read neither as the machine's nor as a user's. -/
theorem preferences_durable (steps : List StoreStep) (index : ℕ) :
    let files := (Run.stateAt step start steps index).files
    TrafficMode.load files TrafficMode.machineName =
        (lastRenamed .machine steps index).getD .open ∧
      (TrafficMode.loadUserBlocks files).Pairwise (fun first second ↦ first.1 < second.1) ∧
      (∀ uid preference, (uid, preference) ∈ TrafficMode.loadUserBlocks files ↔
        lastRenamed (.user uid) steps index = some preference ∧ preference ≠ .open) ∧
      ∀ name, (files.get name).isSome →
        (∃ owner : PreferenceOwner, name = owner.path ∧
          (lastRenamed owner steps index).isSome) ∨
        (IsTemporary name ∧ name ≠ TrafficMode.machineName ∧
          TrafficMode.userOfName name = none) := by
  intro files
  have hfiles : FilesSound files := (sound_stateAt steps index).files
  have hlast : ∀ owner : PreferenceOwner, files.get owner.path =
      (lastRenamed owner steps index).map (·.asStr ++ "\n") :=
    fun owner ↦ get_path_stateAt owner steps index
  have hload : ∀ owner : PreferenceOwner, TrafficMode.load files owner.path =
      (lastRenamed owner steps index).getD .open := by
    intro owner
    rw [TrafficMode.load, hlast owner]
    cases lastRenamed owner steps index <;> simp
  refine ⟨hload .machine, pairwise_loadUserBlocks hfiles.canonical, fun uid preference ↦ ?_,
    fun name hsome ↦ ?_⟩
  · have huser : TrafficMode.load files (TrafficMode.userPath uid) =
        (lastRenamed (.user uid) steps index).getD .open := hload (.user uid)
    rw [mem_loadUserBlocks_iff hfiles.canonical, huser]
    cases lastRenamed (.user uid) steps index with
    | none =>
      rw [Option.getD_none]
      constructor
      · rintro ⟨rfl, hblocked⟩
        exact absurd hblocked (by decide)
      · rintro ⟨hnone, _⟩
        cases hnone
    | some found => simp [TrafficPreference.isBlocked]
  · obtain ⟨content, hget⟩ := Option.isSome_iff_exists.mp hsome
    rcases hfiles name content hget with ⟨owner, preference, rfl, rfl⟩ | htemporary
    · refine .inl ⟨owner, rfl, ?_⟩
      have hread := hget
      rw [hlast owner] at hread
      exact Option.isSome_map.symm.trans (by rw [hread, Option.isSome_some])
    · exact .inr ⟨htemporary, (htemporary.ne_path .machine).symm, htemporary.userOfName_eq_none⟩

end PreferenceStore

end InterFire
