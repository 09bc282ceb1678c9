import InterFire.Library.FiniteMap
import InterFire.Library.Run
import InterFire.RulesStore

/-!
# Saves of the rules document

`RulesStore::save` takes six steps: it creates the directory, creates the temporary file
exclusively, writes it, syncs it, renames it over the document and sets the mode of the document. A
`RulesProcess` is a daemon between two of those steps, with the files of the directory. A `SaveStep`
is a call, what becomes of the next step, or a crash after which a process with any id starts; a
write may get a part of the text to the file, and a crash before the sync may lose any of it.
`exists_outcome_of_steps` connects a call that returns with the function `RulesStore.save`.

`document_all_or_nothing` is what a run of such steps keeps: the document is the text of the last
save that was renamed. `save_after_failures_iff` is about a later save of the same process: the
temporary file of a save that broke off stays, and its name is that of every later save.
-/

set_option autoImplicit false
set_option relaxedAutoImplicit false

namespace InterFire

/-! ### The steps of a save -/

/-- The files in the directory of the document: the document, and the temporary file of each
process. -/
inductive RulesFile
  | document
  | temporary (pid : UInt32)
  deriving DecidableEq, Repr

/-- A rule set with the text of its document. -/
structure PrintedRules (toml : Toml) where
  rules : RuleSet
  text : String
  toStringPretty_eq : toml.toStringPretty (RulesStore.documentOf rules) = .ok text

/-- The step that a save takes next. -/
inductive SavePhase
  | createDir
  | create
  | write
  | sync
  | rename
  | setPermissions
  deriving DecidableEq, Repr

/-- A save that has not returned. -/
structure SaveCall (toml : Toml) where
  printed : PrintedRules toml
  phase : SavePhase

structure RulesProcess (toml : Toml) where
  files : FiniteMap RulesFile String
  pid : UInt32
  call : Option (SaveCall toml)

/-- A call, the end of the next step, a part of a write, or a crash with the id of the process that
starts next and the length of the unsynced file that survives it. -/
inductive SaveStep
  | save (rules : RuleSet)
  | succeed
  | writePart (length : ℕ)
  | fail (error : String)
  | crash (pid : UInt32) (kept : Option ℕ)
  deriving DecidableEq, Repr

namespace RulesProcess

variable {toml : Toml}

/-- A process before its first save. -/
def start (toml : Toml) (files : FiniteMap RulesFile String) (pid : UInt32) : RulesProcess toml :=
  { files, pid, call := none }

/-- Its directory as the function `RulesStore.save` sees it. -/
def directory (process : RulesProcess toml) : RulesDirectory :=
  ⟨process.files.get .document, process.files.get (.temporary process.pid)⟩

/-- The call returns. -/
def finish (process : RulesProcess toml) (result : Except PersistenceError Unit) :
    RulesProcess toml × Option (Except PersistenceError Unit) :=
  ({ process with call := none }, some result)

/-- The call goes on to a step. -/
def next (process : RulesProcess toml) (call : SaveCall toml) (phase : SavePhase) :
    RulesProcess toml × Option (Except PersistenceError Unit) :=
  ({ process with call := some { call with phase } }, none)

/-- Call `save`, when no call is under way. -/
def save (process : RulesProcess toml) (rules : RuleSet) :
    RulesProcess toml × Option (Except PersistenceError Unit) :=
  if process.call.isSome then (process, none)
  else
    match hprint : toml.toStringPretty (RulesStore.documentOf rules) with
    | .error error => process.finish (.error (.serialize error))
    | .ok text => process.next ⟨⟨rules, text, hprint⟩, .createDir⟩ .createDir

/-- The next step of a call goes through, unless the temporary file is in the way of its exclusive
creation or missing when it is renamed. -/
def succeed (process : RulesProcess toml) (call : SaveCall toml) :
    RulesProcess toml × Option (Except PersistenceError Unit) :=
  let temporary := RulesFile.temporary process.pid
  match call.phase with
  | .createDir => process.next call .create
  | .create =>
    if (process.files.get temporary).isSome then process.finish (.error (.io "File exists"))
    else next { process with files := process.files.insert temporary "" } call .write
  | .write =>
    next { process with files := process.files.insert temporary call.printed.text } call .sync
  | .sync => process.next call .rename
  | .rename =>
    match process.files.rename temporary .document with
    | some files => next { process with files } call .setPermissions
    | none => process.finish (.error (.io "No such file or directory"))
  | .setPermissions => process.finish (.ok ())

/-- The files after a crash: of a temporary file that was not synced any part may be lost. -/
def survivingFiles (process : RulesProcess toml) (kept : Option ℕ) : FiniteMap RulesFile String :=
  match process.call with
  | none => process.files
  | some call =>
    if call.phase = .write ∨ call.phase = .sync then
      match kept with
      | none => process.files.remove (.temporary process.pid)
      | some length => process.files.update (.temporary process.pid)
          fun content ↦ String.ofList (content.toList.take length)
    else process.files

/-- Take a step, and return what the call returns when it ends. -/
def advance (process : RulesProcess toml) : SaveStep →
    RulesProcess toml × Option (Except PersistenceError Unit)
  | .save rules => process.save rules
  | .succeed =>
    match process.call with
    | none => (process, none)
    | some call => process.succeed call
  | .writePart length =>
    match process.call with
    | none => (process, none)
    | some call =>
      if call.phase = .write then
        let part := String.ofList (call.printed.text.toList.take length)
        ({ process with files := process.files.insert (.temporary process.pid) part }, none)
      else (process, none)
  | .fail error =>
    match process.call with
    | none => (process, none)
    | some _ => process.finish (.error (.io error))
  | .crash pid kept => ({ files := process.survivingFiles kept, pid, call := none }, none)

def step (process : RulesProcess toml) (step : SaveStep) : RulesProcess toml :=
  (process.advance step).1

/-- The rules that a step renames over the document. -/
def renamed (process : RulesProcess toml) (step : SaveStep) : Option (PrintedRules toml) :=
  match step, process.call with
  | .succeed, some call =>
    if call.phase = .rename ∧ (process.files.get (.temporary process.pid)).isSome then
      some call.printed
    else none
  | _, _ => none

/-- What a start of the daemon would load. -/
def loadable (process : RulesProcess toml) : Except PersistenceError RuleSet :=
  RulesStore.loadable toml process.directory

/-! ### The invariant -/

/-- The temporary file of a call holds the whole text from the end of the write to the rename, and
the document holds it from then on. -/
def CallSound (process : RulesProcess toml) (call : SaveCall toml) : Prop :=
  match call.phase with
  | .sync | .rename =>
    process.files.get (.temporary process.pid) = some call.printed.text
  | .setPermissions => process.files.get .document = some call.printed.text
  | _ => True

def Sound (process : RulesProcess toml) : Prop :=
  ∀ call, process.call = some call → process.CallSound call

theorem sound_of_idle {process : RulesProcess toml} (hidle : process.call = none) :
    process.Sound := by
  intro call hcall
  rw [hidle] at hcall
  cases hcall

theorem sound_start (files : FiniteMap RulesFile String) (pid : UInt32) :
    (start toml files pid).Sound :=
  sound_of_idle rfl

/-- A call that goes on keeps the invariant. Assumes: it holds of the step that comes next. -/
theorem sound_next {process : RulesProcess toml} {call : SaveCall toml} {phase : SavePhase}
    (hsound : process.CallSound { call with phase }) : (process.next call phase).1.Sound := by
  intro later hlater
  obtain rfl := Option.some.inj hlater
  exact hsound

theorem sound_save {process : RulesProcess toml} (hsound : process.Sound) (rules : RuleSet) :
    (process.save rules).1.Sound := by
  unfold save
  split_ifs
  · exact hsound
  · split
    · exact sound_of_idle rfl
    · exact sound_next trivial

theorem sound_succeed {process : RulesProcess toml} {call : SaveCall toml}
    (hcall : process.CallSound call) : (process.succeed call).1.Sound := by
  obtain ⟨printed, phase⟩ := call
  cases phase with
  | createDir => exact sound_next trivial
  | create =>
    simp only [succeed]
    split_ifs
    · exact sound_of_idle rfl
    · exact sound_next trivial
  | write => exact sound_next (FiniteMap.get_insert_self _ _ _)
  | sync => exact sound_next hcall
  | rename =>
    simp only [succeed, FiniteMap.rename_of_get hcall]
    exact sound_next (FiniteMap.get_insert_self _ _ _)
  | setPermissions => exact sound_of_idle rfl

/-- Every step keeps the invariant. Assumes: it holds. -/
theorem sound_step (process : RulesProcess toml) (step : SaveStep) (hsound : process.Sound) :
    (process.step step).Sound := by
  cases step with
  | save rules => exact sound_save hsound rules
  | succeed =>
    simp only [RulesProcess.step, advance]
    split
    · exact hsound
    · next call hcall => exact sound_succeed (hsound call hcall)
  | writePart length =>
    simp only [RulesProcess.step, advance]
    split
    · exact hsound
    · next call hcall =>
      split_ifs with hphase
      · intro later hlater
        obtain rfl := Option.some.inj (hcall.symm.trans hlater)
        simp [CallSound, hphase]
      · exact hsound
  | fail error =>
    simp only [RulesProcess.step, advance]
    split
    · exact hsound
    · exact sound_of_idle rfl
  | crash pid kept => exact sound_of_idle rfl

/-! ### What a step does to the document -/

theorem get_document_survivingFiles (process : RulesProcess toml) (kept : Option ℕ) :
    (process.survivingFiles kept).get .document = process.files.get .document := by
  unfold survivingFiles
  split
  · rfl
  · split_ifs
    · split
      · exact FiniteMap.get_remove_of_ne _ (by simp)
      · rw [FiniteMap.get_update, if_neg (by simp)]
    · rfl

/-- A temporary file is not the document. -/
theorem get_document_insert (files : FiniteMap RulesFile String) (pid : UInt32)
    (content : String) :
    (files.insert (.temporary pid) content).get .document = files.get .document :=
  FiniteMap.get_insert_of_ne _ (by simp) content

/-- A step changes the document exactly by a rename over it. Assumes: the invariant. -/
theorem get_document_step (process : RulesProcess toml) (step : SaveStep)
    (hsound : process.Sound) :
    (process.step step).files.get .document =
      ((process.renamed step).map PrintedRules.text).or (process.files.get .document) := by
  cases step with
  | save rules =>
    simp only [RulesProcess.step, advance, save]
    split_ifs
    · rfl
    · split <;> rfl
  | writePart length =>
    simp only [RulesProcess.step, advance]
    split
    · rfl
    · split_ifs
      · exact get_document_insert _ _ _
      · rfl
  | fail error =>
    simp only [RulesProcess.step, advance]
    split <;> rfl
  | crash pid kept => exact process.get_document_survivingFiles kept
  | succeed =>
    simp only [RulesProcess.step, advance, renamed]
    cases hcall : process.call with
    | none => rfl
    | some call =>
      have hcallSound := hsound call hcall
      obtain ⟨printed, phase⟩ := call
      cases phase with
      | createDir => rfl
      | create =>
        simp only [succeed]
        split_ifs with hexists hphase
        · cases hphase.1
        · rfl
        · next hphase => cases hphase.1
        · exact get_document_insert _ _ _
      | write => exact get_document_insert _ _ _
      | sync => rfl
      | rename =>
        have hget : process.files.get (.temporary process.pid) = some printed.text := hcallSound
        simp [succeed, FiniteMap.rename_of_get hget, hget, next]
      | setPermissions => rfl

/-- The rules of the last save whose rename happened. -/
def lastRenamed (first : RulesProcess toml) (steps : List SaveStep) (index : ℕ) :
    Option (PrintedRules toml) :=
  (Run.log step renamed first steps index).getLast?

section Runs

variable (files : FiniteMap RulesFile String) (pid : UInt32) (steps : List SaveStep) (index : ℕ)

/-- The document is the text of the last save that was renamed. -/
theorem get_document_stateAt :
    (Run.stateAt step (start toml files pid) steps index).files.get .document =
      ((lastRenamed (start toml files pid) steps index).map PrintedRules.text).or
        (files.get .document) :=
  Run.view_stateAt step renamed (start toml files pid) steps Sound PrintedRules.text
    (fun process ↦ process.files.get .document) (sound_start files pid) sound_step
    get_document_step index

end Runs

/-! ### Saves that succeed -/

/-- A call that is about to set the mode has just renamed its rules. Assumes: a step led there. -/
theorem renamed_of_setPermissions {process : RulesProcess toml} {step : SaveStep}
    {call : SaveCall toml} (hcall : (process.step step).call = some call)
    (hphase : call.phase = .setPermissions) :
    process.renamed step = some call.printed ∨
      (process.renamed step = none ∧ process.call = some call) := by
  cases step with
  | save rules =>
    simp only [RulesProcess.step, advance, save] at hcall
    split_ifs at hcall
    · exact .inr ⟨rfl, hcall⟩
    · split at hcall
      · cases hcall
      · obtain rfl := Option.some.inj hcall
        cases hphase
  | writePart length =>
    refine .inr ⟨rfl, ?_⟩
    simp only [RulesProcess.step, advance] at hcall
    split at hcall
    · exact hcall
    · split_ifs at hcall <;> exact hcall
  | fail error =>
    refine .inr ⟨rfl, ?_⟩
    simp only [RulesProcess.step, advance] at hcall
    split at hcall
    · exact hcall
    · cases hcall
  | crash pid kept => cases hcall
  | succeed =>
    cases hbefore : process.call with
    | none =>
      simp only [RulesProcess.step, advance, hbefore] at hcall
      cases hcall
    | some before =>
      simp only [RulesProcess.step, advance, hbefore] at hcall
      obtain ⟨printed, phase⟩ := before
      cases phase with
      | rename =>
        simp only [succeed] at hcall
        split at hcall
        · next files hrename =>
          obtain rfl := Option.some.inj hcall
          have hsome : (process.files.get (.temporary process.pid)).isSome := by
            rw [FiniteMap.rename] at hrename
            exact (Option.isSome_map ..).symm.trans (by rw [hrename]; rfl)
          exact .inl (by simp [renamed, hbefore, hsome])
        · cases hcall
      | create =>
        simp only [succeed] at hcall
        split_ifs at hcall
        · cases hcall
        · obtain rfl := Option.some.inj hcall
          cases hphase
      | setPermissions => cases hcall
      | _ =>
        obtain rfl := Option.some.inj hcall
        cases hphase

theorem lastRenamed_of_setPermissions {first : RulesProcess toml} (hidle : first.call = none)
    (steps : List SaveStep) (index : ℕ) {call : SaveCall toml}
    (hcall : (Run.stateAt step first steps index).call = some call)
    (hphase : call.phase = .setPermissions) :
    lastRenamed first steps index = some call.printed := by
  induction index with
  | zero =>
    rw [Run.stateAt_zero, hidle] at hcall
    cases hcall
  | succ index ih =>
    cases hop : steps[index]? with
    | none =>
      rw [Run.stateAt_succ_of_none step first steps hop] at hcall
      simpa [lastRenamed, Run.log, hop] using ih hcall
    | some taken =>
      rw [Run.stateAt_succ step first steps hop] at hcall
      rcases renamed_of_setPermissions hcall hphase with hrenamed | ⟨hrenamed, hbefore⟩
      · simp [lastRenamed, Run.log, hop, hrenamed]
      · simpa [lastRenamed, Run.log, hop, hrenamed] using ih hbefore

/-- Only the last step of a call returns success. Assumes: it is returned. -/
theorem setPermissions_of_ok {process : RulesProcess toml} {step : SaveStep}
    (hok : (process.advance step).2 = some (.ok ())) :
    ∃ call, process.call = some call ∧ call.phase = .setPermissions ∧ step = .succeed := by
  cases step with
  | save rules =>
    simp only [advance, save] at hok
    split_ifs at hok
    split at hok <;> cases hok
  | writePart length =>
    simp only [advance] at hok
    split at hok
    · cases hok
    · split_ifs at hok
  | fail error =>
    simp only [advance] at hok
    split at hok <;> cases hok
  | crash pid kept => cases hok
  | succeed =>
    cases hcall : process.call with
    | none =>
      simp only [advance, hcall] at hok
      cases hok
    | some call =>
      simp only [advance, hcall] at hok
      obtain ⟨printed, phase⟩ := call
      cases phase with
      | setPermissions => exact ⟨_, rfl, rfl, rfl⟩
      | create =>
        simp only [succeed] at hok
        split_ifs at hok <;> cases hok
      | rename =>
        simp only [succeed] at hok
        split at hok <;> cases hok
      | _ => cases hok

/-- For every starting directory and every sequence of saves, failures and crashes, the document is
the complete text of the last save whose rename happened, or the original when there is none; what
is loadable is what was loadable at the start or all rules of that save; and a save that returns
success is the one in the document. Assumes: the library reads back what it prints. -/
theorem document_all_or_nothing (hreads : toml.ReadsBack) (files : FiniteMap RulesFile String)
    (pid : UInt32) (steps : List SaveStep) (index : ℕ) :
    let first := start toml files pid
    let process := Run.stateAt step first steps index
    process.files.get .document =
        ((lastRenamed first steps index).map PrintedRules.text).or (files.get .document) ∧
      (lastRenamed first steps index = none → process.loadable = first.loadable) ∧
      (∀ printed, lastRenamed first steps index = some printed → printed.rules.Valid →
        process.loadable = .ok printed.rules) ∧
      ∀ taken, steps[index]? = some taken → (process.advance taken).2 = some (.ok ()) →
        ∃ call, process.call = some call ∧
          lastRenamed first steps (index + 1) = some call.printed ∧
          (process.step taken).files.get .document = some call.printed.text := by
  intro first process
  have hdocument : process.files.get .document =
      ((lastRenamed first steps index).map PrintedRules.text).or (files.get .document) :=
    get_document_stateAt files pid steps index
  refine ⟨hdocument, fun hnone ↦ ?_, fun printed hlast hvalid ↦ ?_, fun taken hop hok ↦ ?_⟩
  · rw [hnone] at hdocument
    simp only [loadable, RulesStore.loadable, directory, hdocument]
    rfl
  · rw [hlast] at hdocument
    simp only [loadable, RulesStore.loadable, directory, hdocument]
    exact RulesStore.load_of_document hvalid (hreads _ _ printed.toStringPretty_eq)
  · obtain ⟨call, hcall, hphase, rfl⟩ := setPermissions_of_ok hok
    have hlast := lastRenamed_of_setPermissions rfl steps index hcall hphase
    have hstep : (Run.stateAt step first steps index).renamed .succeed = none := by
      simp [renamed, hcall, hphase, process]
    refine ⟨call, hcall, ?_, ?_⟩
    · have hlog : lastRenamed first steps (index + 1) = lastRenamed first steps index := by
        simp [lastRenamed, Run.log, hop, hstep]
      rw [hlog, hlast]
    · have hsound : process.Sound :=
        Run.stateAt_invariant step first steps Sound (sound_start files pid) sound_step index
      have hcallSound := hsound call hcall
      rw [get_document_step process .succeed hsound, hstep]
      simpa [CallSound, hphase] using hcallSound

/-- Process 7 crashes in the write, and process 8 saves the rule for curl. -/
theorem document_after_crash : curlToml.ReadsBack ∧
    (Run.stateAt step (start curlToml .empty 7) [.save ⟨[curlRule]⟩, .succeed, .succeed,
      .writePart 5, .crash 8 (some 3), .save ⟨[curlRule]⟩, .succeed, .succeed, .succeed, .succeed,
      .succeed, .succeed] 12).files.get .document = some curlText :=
  ⟨curlToml_readsBack, (document_all_or_nothing curlToml_readsBack .empty 7 [.save ⟨[curlRule]⟩,
    .succeed, .succeed, .writePart 5, .crash 8 (some 3), .save ⟨[curlRule]⟩, .succeed, .succeed,
    .succeed, .succeed, .succeed, .succeed] 12).1⟩

/-! ### A call as one function -/

/-- The step is the end of a step of a save, or a part of a write. -/
def IsOperation : SaveStep → Prop
  | .succeed => True
  | .writePart _ => True
  | .fail _ => True
  | _ => False

/-- Take steps until the call returns. -/
def untilReturn (process : RulesProcess toml) : List SaveStep →
    RulesProcess toml × Option (Except PersistenceError Unit)
  | [] => (process, none)
  | step :: rest =>
    match process.advance step with
    | (after, some result) => (after, some result)
    | (after, none) => after.untilReturn rest

/-- The directory during a call, from the directory before it. -/
def During (before : RulesDirectory) (printed : PrintedRules toml) (process : RulesProcess toml) :
    Prop :=
  ∃ phase, process.call = some ⟨printed, phase⟩ ∧
    match phase with
    | .createDir | .create => process.directory = before
    | .write => before.temporary = none ∧
        ∃ part, process.directory = ⟨before.document, some part⟩
    | .sync | .rename => before.temporary = none ∧
        process.directory = ⟨before.document, some printed.text⟩
    | .setPermissions => before.temporary = none ∧ process.directory = ⟨some printed.text, none⟩

/-- What a call leaves and returns is what `RulesStore.save` leaves and returns. -/
def Returned (before : RulesDirectory) (printed : PrintedRules toml)
    (ended : RulesProcess toml × Except PersistenceError Unit) : Prop :=
  ∃ outcome, RulesStore.save toml outcome printed.rules before = (ended.1.directory, ended.2)

/-- A step leads on to the next one or to the end of the call. -/
def Leads (before : RulesDirectory) (printed : PrintedRules toml)
    (ended : RulesProcess toml × Option (Except PersistenceError Unit)) : Prop :=
  match ended.2 with
  | none => During before printed ended.1
  | some result => Returned before printed (ended.1, result)

section During

variable {before : RulesDirectory} {printed : PrintedRules toml} {process : RulesProcess toml}

theorem save_created (replace : ReplaceOutcome) (htemporary : before.temporary = none) :
    RulesStore.save toml (.created replace) printed.rules before =
      RulesStore.replaceDocument replace printed.text before := by
  simp [RulesStore.save, printed.toStringPretty_eq, htemporary]

theorem directory_insert_temporary (process : RulesProcess toml) (content : String)
    (call : Option (SaveCall toml)) :
    directory
        { process with files := process.files.insert (.temporary process.pid) content, call } =
      ⟨process.directory.document, some content⟩ := by
  simp [directory, get_document_insert]

/-- A step that fails ends the call as `RulesStore.save` does when it is stopped there. Assumes: the
call is under way. -/
theorem During.fail (hduring : During before printed process) (error : String) :
    Leads before printed (process.advance (.fail error)) := by
  obtain ⟨phase, hcall, hphase⟩ := hduring
  simp only [advance, hcall, finish, Leads]
  cases phase with
  | createDir =>
    exact ⟨.createDirFailed error, by
      simp only [RulesStore.save, printed.toStringPretty_eq, ← hphase]; rfl⟩
  | create =>
    exact ⟨.createFailed error, by
      simp only [RulesStore.save, printed.toStringPretty_eq, ← hphase]; rfl⟩
  | write =>
    obtain ⟨htemporary, part, hdirectory⟩ := hphase
    refine ⟨.created (.writeFailed error part), ?_⟩
    rw [save_created _ htemporary, RulesStore.replaceDocument, ← hdirectory]
    rfl
  | sync =>
    obtain ⟨htemporary, hdirectory⟩ := hphase
    refine ⟨.created (.writeFailed error printed.text), ?_⟩
    rw [save_created _ htemporary, RulesStore.replaceDocument, ← hdirectory]
    rfl
  | rename =>
    obtain ⟨htemporary, hdirectory⟩ := hphase
    refine ⟨.created (.renameFailed error), ?_⟩
    rw [save_created _ htemporary, RulesStore.replaceDocument, ← hdirectory]
    rfl
  | setPermissions =>
    obtain ⟨htemporary, hdirectory⟩ := hphase
    refine ⟨.created (.permissionsFailed error), ?_⟩
    rw [save_created _ htemporary, RulesStore.replaceDocument, ← hdirectory]
    rfl

theorem During.writePart (hduring : During before printed process) (length : ℕ) :
    Leads before printed (process.advance (.writePart length)) := by
  obtain ⟨phase, hcall, hphase⟩ := hduring
  simp only [advance, hcall]
  split_ifs with hwrite
  · obtain rfl : phase = .write := hwrite
    obtain ⟨htemporary, part, hdirectory⟩ := hphase
    refine ⟨.write, rfl, htemporary, String.ofList (printed.text.toList.take length), ?_⟩
    have hinsert := directory_insert_temporary process
      (String.ofList (printed.text.toList.take length)) (some ⟨printed, .write⟩)
    rw [hdirectory] at hinsert
    exact hinsert
  · exact ⟨phase, hcall, hphase⟩

theorem During.succeed (hduring : During before printed process) :
    Leads before printed (process.advance .succeed) := by
  obtain ⟨phase, hcall, hphase⟩ := hduring
  simp only [advance, hcall]
  cases phase with
  | createDir => exact ⟨.create, rfl, hphase⟩
  | create =>
    have htemporary : process.files.get (.temporary process.pid) = before.temporary :=
      congrArg RulesDirectory.temporary hphase
    simp only [RulesProcess.succeed, htemporary]
    split_ifs with hexists
    · refine ⟨.done, ?_⟩
      simp only [RulesStore.save, printed.toStringPretty_eq, SaveOutcome.done, hexists, if_true]
      rw [← hphase]
      rfl
    · refine ⟨.write, rfl, by simpa using hexists, "", ?_⟩
      rw [← hphase]
      exact directory_insert_temporary process "" _
  | write =>
    obtain ⟨htemporary, part, hdirectory⟩ := hphase
    refine ⟨.sync, rfl, htemporary, ?_⟩
    have hinsert := directory_insert_temporary process printed.text (some ⟨printed, .sync⟩)
    rw [hdirectory] at hinsert
    exact hinsert
  | sync => exact ⟨.rename, rfl, hphase⟩
  | rename =>
    obtain ⟨htemporary, hdirectory⟩ := hphase
    have hget : process.files.get (.temporary process.pid) = some printed.text :=
      congrArg RulesDirectory.temporary hdirectory
    simp only [RulesProcess.succeed, FiniteMap.rename_of_get hget]
    refine ⟨.setPermissions, rfl, htemporary, ?_⟩
    simp [next, directory, FiniteMap.get_insert]
  | setPermissions =>
    obtain ⟨htemporary, hdirectory⟩ := hphase
    refine ⟨.done, ?_⟩
    rw [SaveOutcome.done, save_created _ htemporary, RulesStore.replaceDocument, ← hdirectory]
    rfl

end During

/-- A call that returns leaves the directory that the function `RulesStore.save` leaves, and returns
what it returns, whatever became of its steps. Assumes: no call was under way before it, its steps
are those of a save, and it returned. -/
theorem exists_outcome_of_steps {process after : RulesProcess toml} (hidle : process.call = none)
    {rules : RuleSet} {steps : List SaveStep} (hsteps : ∀ step ∈ steps, IsOperation step)
    {result : Except PersistenceError Unit}
    (hreturned : process.untilReturn (.save rules :: steps) = (after, some result)) :
    ∃ outcome, RulesStore.save toml outcome rules process.directory =
      (after.directory, result) := by
  have hduring : ∀ (printed : PrintedRules toml) (middle : RulesProcess toml),
      During process.directory printed middle → middle.untilReturn steps = (after, some result) →
      Returned process.directory printed (after, result) := by
    clear hreturned
    intro printed
    induction steps with
    | nil =>
      intro middle _ hnil
      cases hnil
    | cons first rest ih =>
      intro middle hmiddle hrun
      have hleads : Leads process.directory printed (middle.advance first) := by
        have hfirst := hsteps first List.mem_cons_self
        cases first with
        | succeed => exact hmiddle.succeed
        | writePart length => exact hmiddle.writePart length
        | fail error => exact hmiddle.fail error
        | _ => exact absurd hfirst id
      unfold untilReturn at hrun
      split at hrun
      · next ended found hadvance =>
        obtain ⟨rfl, hfound⟩ := Prod.mk.inj hrun
        obtain rfl := Option.some.inj hfound
        rw [hadvance] at hleads
        exact hleads
      · next next hadvance =>
        rw [hadvance] at hleads
        exact ih (fun step hstep ↦ hsteps step (List.mem_cons_of_mem _ hstep)) next hleads hrun
  unfold untilReturn at hreturned
  simp only [advance, save, hidle, Option.isSome_none, Bool.false_eq_true, if_false] at hreturned
  split at hreturned
  · next ended found hsave =>
    split at hsave
    · next error hprint =>
      obtain ⟨rfl, hfound⟩ := Prod.mk.inj hsave
      obtain ⟨rfl, hresult⟩ := Prod.mk.inj hreturned
      obtain rfl := Option.some.inj (hfound.trans hresult)
      exact ⟨.done, by simp only [RulesStore.save, hprint]; rfl⟩
    · cases hsave
  · next next hsave =>
    split at hsave
    · cases hsave
    · next text hprint =>
      obtain ⟨rfl, _⟩ := Prod.mk.inj hsave
      refine hduring ⟨rules, text, hprint⟩ _ ?_ hreturned
      exact ⟨.createDir, rfl, rfl⟩

end RulesProcess

/-! ### Saves after failures -/

/-- The directory after saves of one process. -/
def RulesStore.saveAll (toml : Toml) (directory : RulesDirectory)
    (history : List (SaveOutcome × RuleSet)) : RulesDirectory :=
  history.foldl (fun directory entry ↦ (RulesStore.save toml entry.1 entry.2 directory).1) directory

/-- The replacement fails before the rename. -/
def ReplaceOutcome.failsBeforeRename : ReplaceOutcome → Bool
  | .writeFailed _ _ => true
  | .renameFailed _ => true
  | .permissionsFailed _ => false
  | .done => false

/-- The save fails between the creation of the temporary file and its rename. -/
def BreaksOffSave (toml : Toml) (entry : SaveOutcome × RuleSet) : Prop :=
  (∃ text, toml.toStringPretty (RulesStore.documentOf entry.2) = .ok text) ∧
    ∃ replace : ReplaceOutcome, entry.1 = .created replace ∧ replace.failsBeforeRename = true

namespace RulesStore

/-- No temporary file is left by a save exactly when none was there and the save does not break off.
-/
theorem temporary_save_eq_none_iff (toml : Toml) (entry : SaveOutcome × RuleSet)
    (directory : RulesDirectory) :
    (save toml entry.1 entry.2 directory).1.temporary = none ↔
      directory.temporary = none ∧ ¬ BreaksOffSave toml entry := by
  obtain ⟨outcome, rules⟩ := entry
  unfold BreaksOffSave save
  cases hprint : toml.toStringPretty (documentOf rules) with
  | error error => simp
  | ok text =>
    cases outcome with
    | created replace =>
      cases htemporary : directory.temporary with
      | some leftover => simp [htemporary]
      | none => cases replace <;> simp [replaceDocument, ReplaceOutcome.failsBeforeRename]
    | _ => simp

theorem temporary_saveAll_eq_none_iff (toml : Toml) (directory : RulesDirectory)
    (history : List (SaveOutcome × RuleSet)) :
    (saveAll toml directory history).temporary = none ↔
      directory.temporary = none ∧ ∀ entry ∈ history, ¬ BreaksOffSave toml entry := by
  induction history generalizing directory with
  | nil => simp [saveAll]
  | cons entry rest ih =>
    have hcons : saveAll toml directory (entry :: rest) =
        saveAll toml (save toml entry.1 entry.2 directory).1 rest := rfl
    rw [hcons, ih, temporary_save_eq_none_iff, List.forall_mem_cons, and_assoc]

/-- After any saves of one process a save on a working file system succeeds, and is what is then
loaded, exactly when no temporary file was there at the start, none of the saves broke off between
the creation of the temporary file and its rename, and the library can print the rules. Assumes: the
library reads back what it prints, and the rules are valid. -/
theorem save_after_failures_iff {toml : Toml} (hreads : toml.ReadsBack) {rules : RuleSet}
    (hvalid : rules.Valid) (directory : RulesDirectory) (history : List (SaveOutcome × RuleSet)) :
    ((save toml .done rules (saveAll toml directory history)).2 = .ok () ∧
        loadable toml (save toml .done rules (saveAll toml directory history)).1 = .ok rules) ↔
      directory.temporary = none ∧ (∀ entry ∈ history, ¬ BreaksOffSave toml entry) ∧
        ∃ text, toml.toStringPretty (documentOf rules) = .ok text := by
  have hsaves : (save toml .done rules (saveAll toml directory history)).2 = .ok () ↔
      directory.temporary = none ∧ (∀ entry ∈ history, ¬ BreaksOffSave toml entry) ∧
        ∃ text, toml.toStringPretty (documentOf rules) = .ok text := by
    rw [save_ok_iff, Saves, temporary_saveAll_eq_none_iff]
    tauto
  constructor
  · rintro ⟨hok, _⟩
    exact hsaves.mp hok
  · intro hcondition
    have hok := hsaves.mpr hcondition
    exact ⟨hok, loadable_of_save hreads hvalid hok⟩

/-- A save that failed before it created its temporary file does not stop the next one. -/
theorem save_after_create_failed : curlToml.ReadsBack ∧ (⟨[curlRule]⟩ : RuleSet).Valid ∧
    (save curlToml .done ⟨[curlRule]⟩
      (saveAll curlToml ⟨none, none⟩ [(.createFailed "Permission denied", ⟨[curlRule]⟩)])).2 =
        .ok () := by
  have hvalid : (⟨[curlRule]⟩ : RuleSet).Valid :=
    RuleSet.valid_insert RuleSet.valid_default (rfl : RuleSet.default.insert curlRule = _)
  refine ⟨curlToml_readsBack, hvalid, ?_⟩
  refine ((save_after_failures_iff curlToml_readsBack hvalid ⟨none, none⟩
    [(.createFailed "Permission denied", ⟨[curlRule]⟩)]).mpr ⟨rfl, ?_, curlText, rfl⟩).1
  intro entry hentry
  obtain rfl := List.mem_singleton.mp hentry
  rintro ⟨_, replace, houtcome, _⟩
  cases houtcome

/-- After a write that failed on a full disk no rule can be saved. -/
theorem save_after_write_failed : RuleSet.default.insert curlRule = .ok ⟨[curlRule]⟩ ∧
    (save curlToml .done ⟨[curlRule]⟩ (saveAll curlToml ⟨none, none⟩
      [(.created (.writeFailed "No space left on device" ""), ⟨[curlRule]⟩)])).2 =
        .error (.io "File exists") :=
  ⟨rfl, rfl⟩

end RulesStore

end InterFire
