import InterFire.RequestThreads

/-!
# Concurrent requests

When the threads of concurrent requests have all returned, memory should hold what the files hold
and the table should be the one that the files ask for (`Settled`). `concurrent_requests_settle`
says when it does: memory agrees with the files exactly when the last value stored of each mode is
the last value written, and the table then agrees too if the last update of the table read the modes
after every store and was not interleaved with another update. `pause_races_resume` is a schedule in
which a pause and a resume leave all three in disagreement.
-/

set_option autoImplicit false
set_option relaxedAutoImplicit false

namespace InterFire

open Nftables Nft

/-! ### Writes and stores along a run -/

/-- The mode that a request sets. -/
def ModeRequest.mode : ModeRequest → Option EnforcementMode
  | .pause => some .paused
  | .resume => some .active
  | _ => none

/-- The machine preference that a request sets. -/
def ModeRequest.machine : ModeRequest → Option TrafficPreference
  | .trafficBlock .machine preference _ => some preference
  | .trafficUnblock .machine _ => some .open
  | _ => none

/-- A write of a file or a store to memory, by the request that makes it. -/
inductive StoreEvent
  | write (request : ModeRequest)
  | remember (request : ModeRequest)
  deriving DecidableEq, Repr

/-- The value that a file write sets, as selected from its request. -/
def StoreEvent.writes {α : Type} (select : ModeRequest → Option α) : StoreEvent → Option α
  | .write request => select request
  | .remember _ => none

/-- The value that a store to memory sets, as selected from its request. -/
def StoreEvent.stores {α : Type} (select : ModeRequest → Option α) : StoreEvent → Option α
  | .write _ => none
  | .remember request => select request

/-- The write or store that a thread is about to make. -/
def RequestThread.event (thread : RequestThread) : Option StoreEvent :=
  match thread.position with
  | .accepted => some (.write thread.request)
  | .written => some (.remember thread.request)
  | _ => none

/-- The value of the last event that has one. -/
def lastOf {α : Type} (select : StoreEvent → Option α) (events : List StoreEvent) : Option α :=
  events.reverse.findSome? select

theorem lastOf_append {α : Type} (select : StoreEvent → Option α) (first second : List StoreEvent) :
    lastOf select (first ++ second) = (lastOf select second).or (lastOf select first) := by
  simp [lastOf, List.findSome?_append]

theorem lastOf_eq_none_iff {α : Type} {select : StoreEvent → Option α} {events : List StoreEvent} :
    lastOf select events = none ↔ ∀ event ∈ events, select event = none := by
  simp [lastOf, List.findSome?_eq_none_iff]

namespace ModeSystem

/-- The write or store that a step of the thread at an index makes. -/
def event (system : ModeSystem) (index : ℕ) : Option StoreEvent :=
  (system.threads[index]?).bind RequestThread.event

/-- The writes and stores of a run. -/
def trace (system : ModeSystem) : List ℕ → List StoreEvent
  | [] => []
  | index :: schedule => (system.event index).toList ++ (system.step index).trace schedule

/-- What a step does to a value, from what a step of a thread does to it. Assumes: a thread changes
the value by its selected events only. -/
theorem value_step {α : Type} (value : Enforcement → α) (select : StoreEvent → Option α)
    (hthread : ∀ (thread : RequestThread) (shared : Enforcement), value (thread.step shared).1 =
      (thread.event.bind select).getD (value shared)) (system : ModeSystem) (index : ℕ) :
    value (system.step index).shared =
      ((system.event index).bind select).getD (value system.shared) := by
  cases hthreads : system.threads[index]? with
  | none => simp [step_of_none hthreads, event, hthreads]
  | some thread => simp [step_of_some hthreads, event, hthreads, hthread]

/-- A value that only selected events change is, after a run, that of the last such event. Assumes:
a thread changes the value by its selected events only. -/
theorem value_run {α : Type} (value : Enforcement → α) (select : StoreEvent → Option α)
    (hthread : ∀ (thread : RequestThread) (shared : Enforcement), value (thread.step shared).1 =
      (thread.event.bind select).getD (value shared)) (schedule : List ℕ) :
    ∀ system : ModeSystem, value (system.run schedule).shared =
      (lastOf select (system.trace schedule)).getD (value system.shared) := by
  induction schedule with
  | nil => intro system; rfl
  | cons index schedule ih =>
    intro system
    rw [run_cons, ih (system.step index), trace, lastOf_append, value_step value select hthread]
    cases lastOf select ((system.step index).trace schedule) with
    | some value => rfl
    | none => cases hevent : system.event index <;> simp [lastOf]

end ModeSystem

/-- What a kept file holds after the write of a request. Assumes: the stem of the file is one of the
kept ones. -/
theorem get_storeFile_request (request : ModeRequest) (sequence : ℕ) (files : Directory)
    {name : String} (hname : stemOf name ∈ stateStems) :
    (storeFile .done sequence request.fileName request.content files).1.get name =
      if name = request.fileName then some request.content else files.get name := by
  have hne := ne_temporaryName (Enforcement.stemOf_fileName request) hname sequence
  rw [get_storeFile_done, if_neg hne]

/-- What the mode file says after the write of a request. -/
theorem load_mode_storeFile (request : ModeRequest) (sequence : ℕ) (files : Directory) :
    EnforcementMode.load (storeFile .done sequence request.fileName request.content files).1 =
      request.mode.getD (EnforcementMode.load files) := by
  rw [EnforcementMode.load, get_storeFile_request request sequence files stemOf_modeName_mem]
  cases request with
  | pause => simp [ModeRequest.fileName, ModeRequest.content, ModeRequest.mode]
  | resume => simp [ModeRequest.fileName, ModeRequest.content, ModeRequest.mode]
  | trafficBlock scope preference uid =>
    cases scope <;> simp [ModeRequest.fileName, ModeRequest.mode, modeName_ne_machineName,
      modeName_ne_userPath, EnforcementMode.load]
  | trafficUnblock scope uid =>
    cases scope <;> simp [ModeRequest.fileName, ModeRequest.mode, modeName_ne_machineName,
      modeName_ne_userPath, EnforcementMode.load]

/-- What the machine file says after the write of a request. -/
theorem load_machine_storeFile (request : ModeRequest) (sequence : ℕ) (files : Directory) :
    TrafficMode.load (storeFile .done sequence request.fileName request.content files).1
        TrafficMode.machineName =
      request.machine.getD (TrafficMode.load files TrafficMode.machineName) := by
  rw [TrafficMode.load, get_storeFile_request request sequence files stemOf_machineName_mem]
  cases request with
  | pause => simp [ModeRequest.fileName, ModeRequest.machine, modeName_ne_machineName.symm,
      TrafficMode.load]
  | resume => simp [ModeRequest.fileName, ModeRequest.machine, modeName_ne_machineName.symm,
      TrafficMode.load]
  | trafficBlock scope preference uid =>
    cases scope <;> simp [ModeRequest.fileName, ModeRequest.content, ModeRequest.machine,
      machineName_ne_userPath, TrafficMode.load]
  | trafficUnblock scope uid =>
    cases scope <;> simp [ModeRequest.fileName, ModeRequest.content, ModeRequest.machine,
      machineName_ne_userPath, TrafficMode.load]

theorem rulesMode_remember (shared : Enforcement) (request : ModeRequest) :
    (shared.remember request).rulesMode = request.mode.getD shared.rulesMode := by
  cases request with
  | trafficBlock scope preference uid => cases scope <;> rfl
  | trafficUnblock scope uid => cases scope <;> rfl
  | _ => rfl

theorem machineTraffic_remember (shared : Enforcement) (request : ModeRequest) :
    (shared.remember request).machineTraffic = request.machine.getD shared.machineTraffic := by
  cases request with
  | trafficBlock scope preference uid => cases scope <;> rfl
  | trafficUnblock scope uid => cases scope <;> rfl
  | _ => rfl

namespace ModeSystem

variable (system : ModeSystem) (schedule : List ℕ)

/-- The mode file holds the last mode written. -/
theorem load_mode_run :
    EnforcementMode.load (system.run schedule).shared.files =
      (lastOf (StoreEvent.writes ModeRequest.mode) (system.trace schedule)).getD
        (EnforcementMode.load system.shared.files) := by
  refine value_run (fun shared ↦ EnforcementMode.load shared.files) _ (fun thread shared ↦ ?_)
    schedule system
  cases hposition : thread.position <;>
    simp [RequestThread.step, RequestThread.event, hposition, StoreEvent.writes,
      load_mode_storeFile]

/-- The machine file holds the last machine preference written. -/
theorem load_machine_run :
    TrafficMode.load (system.run schedule).shared.files TrafficMode.machineName =
      (lastOf (StoreEvent.writes ModeRequest.machine) (system.trace schedule)).getD
        (TrafficMode.load system.shared.files TrafficMode.machineName) := by
  refine value_run (fun shared ↦ TrafficMode.load shared.files TrafficMode.machineName) _
    (fun thread shared ↦ ?_) schedule system
  cases hposition : thread.position <;>
    simp [RequestThread.step, RequestThread.event, hposition, StoreEvent.writes,
      load_machine_storeFile]

/-- Memory holds the last mode stored. -/
theorem rulesMode_run :
    (system.run schedule).shared.rulesMode =
      (lastOf (StoreEvent.stores ModeRequest.mode) (system.trace schedule)).getD
        system.shared.rulesMode := by
  refine value_run Enforcement.rulesMode _ (fun thread shared ↦ ?_) schedule system
  cases hposition : thread.position <;>
    simp [RequestThread.step, RequestThread.event, hposition, StoreEvent.stores,
      rulesMode_remember] <;> rfl

/-- Memory holds the last machine preference stored. -/
theorem machineTraffic_run :
    (system.run schedule).shared.machineTraffic =
      (lastOf (StoreEvent.stores ModeRequest.machine) (system.trace schedule)).getD
        system.shared.machineTraffic := by
  refine value_run Enforcement.machineTraffic _ (fun thread shared ↦ ?_) schedule system
  cases hposition : thread.position <;>
    simp [RequestThread.step, RequestThread.event, hposition, StoreEvent.stores,
      machineTraffic_remember]

/-! ### Memory and files when all requests have been handled -/

/-- A thread that is about to store does so before it returns. Assumes: the thread is about to
store, and the run ends with every thread returned. -/
theorem remember_mem_trace {index : ℕ} {thread : RequestThread}
    (hwritten : thread.position = .written) (schedule : List ℕ) :
    ∀ system : ModeSystem, system.threads[index]? = some thread →
      (system.run schedule).Finished →
      StoreEvent.remember thread.request ∈ system.trace schedule := by
  induction schedule with
  | nil =>
    intro system hthread hfinished
    have hreturned := hfinished thread (List.mem_of_getElem? hthread)
    rw [hwritten] at hreturned
    cases hreturned
  | cons other schedule ih =>
    intro system hthread hfinished
    rw [trace, List.mem_append]
    by_cases heq : other = index
    · subst heq
      left
      simp [event, hthread, RequestThread.event, hwritten]
    · right
      exact ih (system.step other) ((getElem?_step_of_ne system heq).trans hthread) hfinished

/-- A machine or mode file that is written is then stored to memory. Assumes: the request is not of
a user, and the run ends with every thread returned. -/
theorem remember_mem_trace_of_write {request : ModeRequest} (hmachine : request.isUser = false)
    (schedule : List ℕ) : ∀ system : ModeSystem, (system.run schedule).Finished →
      StoreEvent.write request ∈ system.trace schedule →
      StoreEvent.remember request ∈ system.trace schedule := by
  induction schedule with
  | nil => intro system _ hmem; cases hmem
  | cons index schedule ih =>
    intro system hfinished hmem
    rw [trace, List.mem_append] at hmem ⊢
    rcases hmem with hhead | htail
    · right
      obtain ⟨thread, hthread, hevent⟩ :=
        Option.bind_eq_some_iff.mp (Option.mem_toList.mp hhead)
      unfold RequestThread.event at hevent
      split at hevent
      · next haccepted =>
        obtain rfl : thread.request = request := by simpa using hevent
        have hafter := getElem?_step_self hthread
        have hposition : (thread.step system.shared).2 = .written := by
          simp [RequestThread.step, haccepted, hmachine]
        rw [hposition] at hafter
        have hremember := remember_mem_trace rfl schedule (system.step index) hafter hfinished
        exact hremember
      · cases hevent
      · cases hevent
    · exact .inr (ih (system.step index) hfinished htail)

/-- A store follows the write of its request. -/
theorem write_mem_trace_of_remember {request : ModeRequest} (schedule : List ℕ) :
    ∀ system : ModeSystem, StoreEvent.remember request ∈ system.trace schedule →
      (∃ (index : ℕ) (thread : RequestThread), system.threads[index]? = some thread ∧
        thread.position = .written ∧ thread.request = request) ∨
      StoreEvent.write request ∈ system.trace schedule := by
  induction schedule with
  | nil => intro system hmem; cases hmem
  | cons index schedule ih =>
    intro system hmem
    rw [trace, List.mem_append] at hmem ⊢
    rcases hmem with hhead | htail
    · obtain ⟨thread, hthread, hevent⟩ :=
        Option.bind_eq_some_iff.mp (Option.mem_toList.mp hhead)
      unfold RequestThread.event at hevent
      split at hevent
      · cases hevent
      · next hwritten => exact .inl ⟨index, thread, hthread, hwritten, by simpa using hevent⟩
      · cases hevent
    · rcases ih (system.step index) htail with ⟨other, thread, hthread, hwritten, rfl⟩ | hwrite
      · rcases thread_step_cases hthread with ⟨_, hbefore⟩ | ⟨rfl, before, hbefore, rfl⟩
        · exact .inl ⟨other, thread, hbefore, hwritten, rfl⟩
        · -- Only a thread whose request was accepted comes to the store, and it writes first.
          have haccepted := RequestThread.accepted_of_step_written hwritten
          right
          left
          simp [event, hbefore, RequestThread.event, haccepted]
      · exact .inr (.inr hwrite)

/-- A value is written along a run exactly when one is stored. Assumes: no user request carries the
value, and the run takes every thread from its start to its return. -/
theorem lastOf_writes_eq_none_iff {α : Type} {select : ModeRequest → Option α}
    (hselect : ∀ request, request.isUser = true → select request = none) {system : ModeSystem}
    {schedule : List ℕ} (hfresh : system.Fresh) (hfinished : (system.run schedule).Finished) :
    lastOf (StoreEvent.writes select) (system.trace schedule) = none ↔
      lastOf (StoreEvent.stores select) (system.trace schedule) = none := by
  rw [lastOf_eq_none_iff, lastOf_eq_none_iff]
  constructor
  · intro hwrites event hmem
    cases event with
    | write request => rfl
    | remember request =>
      rcases write_mem_trace_of_remember schedule system hmem with
        ⟨index, thread, hthread, hwritten, _⟩ | hwrite
      · have hentered := hfresh thread (List.mem_of_getElem? hthread)
        rw [hwritten] at hentered
        cases hentered
      · exact hwrites _ hwrite
  · intro hstores event hmem
    cases event with
    | remember request => rfl
    | write request =>
      cases huser : request.isUser with
      | true => exact hselect request huser
      | false =>
        exact hstores _ (remember_mem_trace_of_write huser schedule system hfinished hmem)

end ModeSystem

/-- Memory holds what the files hold. -/
def MemoryPersisted (shared : Enforcement) : Prop :=
  shared.rulesMode = EnforcementMode.load shared.files ∧
    shared.machineTraffic = TrafficMode.load shared.files TrafficMode.machineName

instance (shared : Enforcement) : Decidable (MemoryPersisted shared) :=
  inferInstanceAs (Decidable (_ ∧ _))

/-- The last value stored of each mode is the last value written. -/
def StoresFollowWrites (events : List StoreEvent) : Prop :=
  lastOf (StoreEvent.stores ModeRequest.mode) events =
      lastOf (StoreEvent.writes ModeRequest.mode) events ∧
    lastOf (StoreEvent.stores ModeRequest.machine) events =
      lastOf (StoreEvent.writes ModeRequest.machine) events

/-- Two optional values over one default. Assumes: both are there or neither is. -/
theorem getD_eq_getD_iff {α : Type} {first second : Option α} (hnone : first = none ↔ second = none)
    (default : α) : first.getD default = second.getD default ↔ first = second := by
  cases first with
  | none => simp [hnone.mp rfl]
  | some value =>
    cases second with
    | none => exact absurd (hnone.mpr rfl) (by simp)
    | some other => simp

/-- After a complete run memory agrees with the files exactly when the last stores follow the last
writes. Assumes: it agrees at the start, and the run takes every thread from its start to its
return. -/
theorem memoryPersisted_run_iff {system : ModeSystem} {schedule : List ℕ} (hfresh : system.Fresh)
    (hfinished : (system.run schedule).Finished) (hstart : MemoryPersisted system.shared) :
    MemoryPersisted (system.run schedule).shared ↔
      StoresFollowWrites (system.trace schedule) := by
  have hmode : ∀ request : ModeRequest, request.isUser = true → request.mode = none := by
    intro request huser
    cases request <;> simp [ModeRequest.isUser, ModeRequest.mode] at huser ⊢
  have hmachine : ∀ request : ModeRequest, request.isUser = true → request.machine = none := by
    intro request huser
    cases request with
    | trafficBlock scope preference uid =>
      cases scope <;> simp [ModeRequest.isUser, ModeRequest.machine] at huser ⊢
    | trafficUnblock scope uid =>
      cases scope <;> simp [ModeRequest.isUser, ModeRequest.machine] at huser ⊢
    | _ => simp [ModeRequest.isUser] at huser
  rw [MemoryPersisted, ModeSystem.rulesMode_run, ModeSystem.load_mode_run,
    ModeSystem.machineTraffic_run, ModeSystem.load_machine_run, hstart.1, hstart.2,
    getD_eq_getD_iff (ModeSystem.lastOf_writes_eq_none_iff hmode hfresh hfinished).symm,
    getD_eq_getD_iff (ModeSystem.lastOf_writes_eq_none_iff hmachine hfresh hfinished).symm]
  rfl

/-! ### The table when all requests have been handled -/

/-- The thread has neither a file to write nor a mode to store. -/
def RequestThread.PastStores (thread : RequestThread) : Prop :=
  thread.position ≠ .entered ∧ thread.position ≠ .accepted ∧ thread.position ≠ .written

instance (thread : RequestThread) : Decidable thread.PastStores :=
  inferInstanceAs (Decidable (_ ∧ _ ∧ _))

/-- The states agree on everything but the table. -/
def SameModes (state other : Enforcement) : Prop := { state with table := other.table } = other

/-- Past its store a thread changes the table only. Assumes: it is past its store. -/
theorem RequestThread.sameModes_step {thread : RequestThread} (hpast : thread.PastStores)
    (shared : Enforcement) : SameModes shared (thread.step shared).1 := by
  cases hposition : thread.position with
  | entered => exact absurd hposition hpast.1
  | accepted => exact absurd hposition hpast.2.1
  | written => exact absurd hposition hpast.2.2
  | _ => simp [RequestThread.step, hposition, SameModes]

/-- A thread that is past its store stays so. Assumes: it is past its store. -/
theorem RequestThread.pastStores_step {thread : RequestThread} (hpast : thread.PastStores)
    (shared : Enforcement) :
    RequestThread.PastStores { thread with position := (thread.step shared).2 } := by
  cases hposition : thread.position with
  | entered => exact absurd hposition hpast.1
  | accepted => exact absurd hposition hpast.2.1
  | written => exact absurd hposition hpast.2.2
  | decided action =>
    cases hscript : action.script <;> simp [RequestThread.step, hposition, hscript, PastStores]
  | _ => simp [RequestThread.step, hposition, PastStores]

/-- What a thread has read of the modes is what they are. -/
def ThreadPosition.ReadFrom (modes : Enforcement) : ThreadPosition → Prop
  | .gotMachine machine => machine = modes.machineTraffic
  | .gotUsers machine users => machine = modes.machineTraffic ∧ users = modes.userBlocks
  | .gotMode machine users mode =>
    machine = modes.machineTraffic ∧ users = modes.userBlocks ∧ mode = modes.rulesMode
  | .decided action => action = modes.action
  | _ => True

/-- A thread that reads unchanged modes has read what they are. Assumes: it had so far, the modes
are as they were, and it is past its store. -/
theorem RequestThread.readFrom_step {thread : RequestThread} {modes shared : Enforcement}
    (hread : thread.position.ReadFrom modes) (hmodes : SameModes modes shared)
    (hpast : thread.PastStores) : (thread.step shared).2.ReadFrom modes := by
  have hmachine : shared.machineTraffic = modes.machineTraffic := by rw [← hmodes]
  have husers : shared.userBlocks = modes.userBlocks := by rw [← hmodes]; rfl
  have hmode : shared.rulesMode = modes.rulesMode := by rw [← hmodes]; rfl
  have hbound : shared.queueBound = modes.queueBound := by rw [← hmodes]; rfl
  cases hposition : thread.position with
  | entered => exact absurd hposition hpast.1
  | accepted => exact absurd hposition hpast.2.1
  | written => exact absurd hposition hpast.2.2
  | stored => simp [RequestThread.step, hposition, ThreadPosition.ReadFrom, hmachine]
  | gotMachine machine =>
    rw [hposition, ThreadPosition.ReadFrom] at hread
    simp [RequestThread.step, hposition, ThreadPosition.ReadFrom, hread, husers]
  | gotUsers machine users =>
    rw [hposition, ThreadPosition.ReadFrom] at hread
    simp [RequestThread.step, hposition, ThreadPosition.ReadFrom, hread, hmode]
  | gotMode machine users mode =>
    rw [hposition, ThreadPosition.ReadFrom] at hread
    obtain ⟨rfl, rfl, rfl⟩ := hread
    simp [RequestThread.step, hposition, ThreadPosition.ReadFrom, Enforcement.action, hbound]
  | decided action =>
    cases hscript : action.script <;>
      simp [RequestThread.step, hposition, hscript, ThreadPosition.ReadFrom]
  | deleted script => simp [RequestThread.step, hposition, ThreadPosition.ReadFrom]
  | returned => simp [RequestThread.step, hposition, ThreadPosition.ReadFrom]

theorem SameModes.trans {first second third : Enforcement} (hfirst : SameModes first second)
    (hsecond : SameModes second third) : SameModes first third := by
  rw [SameModes, ← hsecond, ← hfirst]

namespace ModeSystem

/-- Every thread is past its store, the modes are given ones, and one thread has read these. -/
structure Reads (modes : Enforcement) (reader : ℕ) (system : ModeSystem) : Prop where
  pastStores : ∀ (index : ℕ) (thread : RequestThread), system.threads[index]? = some thread →
    thread.PastStores
  sameModes : SameModes modes system.shared
  readFrom : ∀ thread, system.threads[reader]? = some thread → thread.position.ReadFrom modes

theorem reads_step {modes : Enforcement} {reader : ℕ} {system : ModeSystem}
    (hreads : Reads modes reader system) (index : ℕ) : Reads modes reader (system.step index) := by
  cases hthread : system.threads[index]? with
  | none => rwa [step_of_none hthread]
  | some thread =>
    have hpast := hreads.pastStores index thread hthread
    refine ⟨fun other after hafter ↦ ?_, ?_, fun after hafter ↦ ?_⟩
    · rcases thread_step_cases hafter with ⟨_, hbefore⟩ | ⟨rfl, before, hbefore, rfl⟩
      · exact hreads.pastStores other after hbefore
      · exact RequestThread.pastStores_step (hreads.pastStores other before hbefore) system.shared
    · rw [step_of_some hthread]
      exact hreads.sameModes.trans (RequestThread.sameModes_step hpast system.shared)
    · rcases thread_step_cases hafter with ⟨_, hbefore⟩ | ⟨rfl, before, hbefore, rfl⟩
      · exact hreads.readFrom after hbefore
      · exact RequestThread.readFrom_step (hreads.readFrom before hbefore) hreads.sameModes
          (hreads.pastStores reader before hbefore)

end ModeSystem

/-- How far the update of the table has come: not begun, deleted, or done. -/
def ThreadPosition.Updating (action : TableAction) (table : Option Table)
    (position : ThreadPosition) : Prop :=
  position = .decided action ∨
    (∃ script, position = .deleted script ∧ action.script = some script ∧ table = none) ∨
    (position = .returned ∧ table = (action.run .success none).1)

/-- A step takes an update further. Assumes: it has come somewhere. -/
theorem RequestThread.updating_step {thread : RequestThread} {action : TableAction}
    {shared : Enforcement} (hupdating : thread.position.Updating action shared.table) :
    (thread.step shared).2.Updating action (thread.step shared).1.table := by
  rcases hupdating with hdecided | ⟨script, hdeleted, hscript, htable⟩ | ⟨hreturned, htable⟩
  · simp only [RequestThread.step, hdecided, Nft.remove]
    cases hscript : action.script with
    | none => exact .inr (.inr ⟨rfl, by rw [action.run_success, hscript]⟩)
    | some script => exact .inr (.inl ⟨script, rfl, hscript, rfl⟩)
  · simp only [RequestThread.step, hdeleted, htable]
    exact .inr (.inr ⟨rfl, by rw [action.run_success, hscript]⟩)
  · simp only [RequestThread.step, hreturned]
    exact .inr (.inr ⟨rfl, htable⟩)

namespace ModeSystem

/-- The modes are given ones, one thread updates the table from them, and the others have
returned. -/
structure Updates (modes : Enforcement) (writer : ℕ) (system : ModeSystem) : Prop where
  sameModes : SameModes modes system.shared
  others : ∀ (index : ℕ) (thread : RequestThread), index ≠ writer →
    system.threads[index]? = some thread → thread.position = .returned
  updating : ∃ thread, system.threads[writer]? = some thread ∧
    thread.PastStores ∧ thread.position.Updating modes.action system.shared.table

theorem updates_step {modes : Enforcement} {writer : ℕ} {system : ModeSystem}
    (hupdates : Updates modes writer system) (index : ℕ) :
    Updates modes writer (system.step index) := by
  obtain ⟨thread, hwriter, hpast, hupdating⟩ := hupdates.updating
  by_cases heq : index = writer
  · subst heq
    refine ⟨?_, fun other after hne hafter ↦ ?_, _, getElem?_step_self hwriter,
      RequestThread.pastStores_step hpast system.shared, ?_⟩
    · rw [step_of_some hwriter]
      exact hupdates.sameModes.trans (RequestThread.sameModes_step hpast system.shared)
    · rw [getElem?_step_of_ne system (Ne.symm hne)] at hafter
      exact hupdates.others other after hne hafter
    · rw [step_of_some hwriter]
      exact RequestThread.updating_step hupdating
  · -- Another thread has returned, so its step changes nothing.
    have hstep : system.step index = system := by
      cases hother : system.threads[index]? with
      | none => exact step_of_none hother
      | some other =>
        have hreturned := hupdates.others index other heq hother
        have hidle : other.step system.shared = (system.shared, .returned) := by
          simp [RequestThread.step, hreturned]
        obtain ⟨hlt, hget⟩ := List.getElem?_eq_some_iff.mp hother
        have hset : system.threads.set index { other with position := .returned } =
            system.threads := by
          rw [← hreturned, ← hget]
          exact List.set_getElem_self hlt
        rw [step_of_some hother, hidle, hset]
    rwa [hstep]

/-- The last update of the table is not raced: the thread that makes it begins to read the modes
when no thread has a write or a store left, and it deletes the table when every other thread has
returned. When every request is refused there is no update. -/
def LastUpdateAlone (system : ModeSystem) (schedule : List ℕ) : Prop :=
  (∀ thread ∈ system.threads, system.shared.accepts thread.request = false) ∨
    ∃ (last : ℕ) (first second third : List ℕ), schedule = first ++ (second ++ third) ∧
      ((∃ thread, (system.run first).threads[last]? = some thread ∧
          thread.position = .stored) ∧
        ∀ thread ∈ (system.run first).threads, thread.PastStores) ∧
      (∃ thread action, (system.run (first ++ second)).threads[last]? = some thread ∧
          thread.position = .decided action) ∧
        ∀ (index : ℕ) (thread : RequestThread), index ≠ last →
          (system.run (first ++ second)).threads[index]? = some thread →
          thread.position = .returned

/-- When the last update is not raced, the table is the one that the modes in memory ask for.
Assumes: some thread makes that update, and all threads have returned at the end. -/
theorem table_run_of_alone {system : ModeSystem} {first second third : List ℕ} {last : ℕ}
    (hreading : (∃ thread, (system.run first).threads[last]? = some thread ∧
        thread.position = .stored) ∧ ∀ thread ∈ (system.run first).threads, thread.PastStores)
    (hupdating : (∃ thread action, (system.run (first ++ second)).threads[last]? = some thread ∧
          thread.position = .decided action) ∧
        ∀ (index : ℕ) (thread : RequestThread), index ≠ last →
          (system.run (first ++ second)).threads[index]? = some thread →
          thread.position = .returned)
    (hfinished : (system.run (first ++ (second ++ third))).Finished) :
    (system.run (first ++ (second ++ third))).shared.table =
      ((system.run (first ++ (second ++ third))).shared.action.run .success none).1 := by
  obtain ⟨⟨reader, hreader, hstored⟩, hpast⟩ := hreading
  obtain ⟨⟨writer, action, hwriter, hdecided⟩, hothers⟩ := hupdating
  have hreads : Reads (system.run first).shared last (system.run (first ++ second)) := by
    rw [run_append]
    refine run_invariant (Reads (system.run first).shared last) ?_
      (fun system index hreads ↦ reads_step hreads index) second
    refine ⟨fun index thread hthread ↦ hpast thread (List.mem_of_getElem? hthread), rfl, ?_⟩
    intro thread hthread
    obtain rfl := Option.some.inj (hreader.symm.trans hthread)
    rw [hstored]
    trivial
  have haction : action = (system.run first).shared.action := by
    have hread := hreads.readFrom writer hwriter
    rwa [hdecided] at hread
  have hupdates : Updates (system.run first).shared last
      (system.run (first ++ (second ++ third))) := by
    rw [← List.append_assoc, run_append]
    refine run_invariant (Updates (system.run first).shared last) ?_
      (fun system index hupdates ↦ updates_step hupdates index) third
    refine ⟨hreads.sameModes, hothers, writer, hwriter, hreads.pastStores last writer hwriter, ?_⟩
    exact .inl (haction ▸ hdecided)
  obtain ⟨thread, hthread, _, hdone⟩ := hupdates.updating
  have hreturned := hfinished thread (List.mem_of_getElem? hthread)
  have hsame : (system.run (first ++ (second ++ third))).shared.action =
      (system.run first).shared.action := by
    rw [← hupdates.sameModes]
    rfl
  rw [hsame]
  rcases hdone with hposition | ⟨script, hposition, _⟩ | ⟨_, htable⟩
  · rw [hreturned] at hposition
    cases hposition
  · rw [hreturned] at hposition
    cases hposition
  · exact htable

/-- Requests that are refused change nothing. Assumes: every request is about to be handled and is
refused. -/
theorem shared_run_of_refused {system : ModeSystem} (hfresh : system.Fresh)
    (hrefused : ∀ thread ∈ system.threads, system.shared.accepts thread.request = false)
    (schedule : List ℕ) : (system.run schedule).shared = system.shared := by
  have hinvariant : (system.run schedule).shared = system.shared ∧
      ∀ (index : ℕ) (thread : RequestThread), (system.run schedule).threads[index]? = some thread →
        system.shared.accepts thread.request = false ∧
          (thread.position = .entered ∨ thread.position = .returned) := by
    refine run_invariant (fun later ↦ later.shared = system.shared ∧
      ∀ (index : ℕ) (thread : RequestThread), later.threads[index]? = some thread →
        system.shared.accepts thread.request = false ∧
          (thread.position = .entered ∨ thread.position = .returned)) ?_ ?_ schedule
    · exact ⟨rfl, fun index thread hthread ↦
        ⟨hrefused thread (List.mem_of_getElem? hthread),
          .inl (hfresh thread (List.mem_of_getElem? hthread))⟩⟩
    · rintro later index ⟨hshared, hthreads⟩
      cases hthread : later.threads[index]? with
      | none =>
        rw [step_of_none hthread]
        exact ⟨hshared, hthreads⟩
      | some thread =>
        obtain ⟨hrefuse, hposition⟩ := hthreads index thread hthread
        have hidle : thread.step later.shared = (later.shared, .returned) := by
          rcases hposition with hentered | hreturned
          · simp [RequestThread.step, hentered, hshared, hrefuse]
          · simp [RequestThread.step, hreturned]
        refine ⟨by rw [step_of_some hthread, hidle]; exact hshared, fun other after hafter ↦ ?_⟩
        rcases thread_step_cases hafter with ⟨_, hbefore⟩ | ⟨rfl, before, hbefore, rfl⟩
        · exact hthreads other after hbefore
        · obtain rfl := Option.some.inj (hthread.symm.trans hbefore)
          exact ⟨hrefuse, .inr (by rw [hidle])⟩
  exact hinvariant.1

end ModeSystem

/-! ### When nothing is lost -/

/-- Memory holds what the files hold, and the table is the one that the files ask for. -/
structure Settled (shared : Enforcement) : Prop where
  memory : MemoryPersisted shared
  table : shared.table = ((tableAction (TrafficMode.load shared.files TrafficMode.machineName)
    shared.userBlocks (EnforcementMode.load shared.files) shared.queueBound).run .success none).1

/-- When concurrent requests are not lost. Assumes: everything is settled at the start, and the run
takes every thread from its start to its return. Memory agrees with the files exactly when the last
value stored of each mode is the last one written; and then the table is the one that the files ask
for if its last update is not raced. -/
theorem concurrent_requests_settle {system : ModeSystem} {schedule : List ℕ} (hfresh : system.Fresh)
    (hfinished : (system.run schedule).Finished) (hsettled : Settled system.shared) :
    (MemoryPersisted (system.run schedule).shared ↔
      StoresFollowWrites (system.trace schedule)) ∧
    (StoresFollowWrites (system.trace schedule) → system.LastUpdateAlone schedule →
      Settled (system.run schedule).shared) := by
  have hmemory := memoryPersisted_run_iff hfresh hfinished hsettled.memory
  refine ⟨hmemory, fun hfollow halone ↦ ?_⟩
  have hpersisted := hmemory.mpr hfollow
  rcases halone with hrefused | ⟨last, first, second, third, rfl, hreading, hupdating⟩
  · rw [ModeSystem.shared_run_of_refused hfresh hrefused schedule]
    exact hsettled
  · refine ⟨hpersisted, ?_⟩
    rw [← hpersisted.1, ← hpersisted.2]
    exact ModeSystem.table_run_of_alone hreading hupdating hfinished

/-- A daemon whose rules are active and whose queue is bound. -/
def queueing : Enforcement :=
  { files := FiniteMap.empty.insert EnforcementMode.modeName "active\n", paused := false,
    machineTraffic := .open, bindState := .nfqueue, table := some ownedTable }

theorem settled_queueing : Settled queueing :=
  ⟨⟨by decide, by decide⟩, by decide +kernel⟩

/-- A pause and a machine block, about to be handled. -/
def pauseAndBlock : ModeSystem :=
  ⟨queueing, [⟨.pause, 0, .entered⟩, ⟨.trafficBlock .machine .out 0, 1, .entered⟩]⟩

/-- A pause and a block whose stores overlap and whose updates do not: the table is the block's. -/
theorem concurrent_requests_settle_pauseAndBlock :
    Settled (pauseAndBlock.run ([0, 0, 1, 1, 0, 1] ++ List.replicate 6 0 ++
      (List.replicate 4 1 ++ List.replicate 2 1))).shared := by
  refine (@concurrent_requests_settle pauseAndBlock _ (by decide) (by decide)
    settled_queueing).2 ⟨by decide, by decide⟩ (.inr ⟨1, _, _, _, rfl, ?_, ?_⟩)
  · refine ⟨⟨⟨.trafficBlock .machine .out 0, 1, .stored⟩, by decide, rfl⟩, ?_⟩
    decide
  · have hthreads : (pauseAndBlock.run ([0, 0, 1, 1, 0, 1] ++ List.replicate 6 0 ++
        List.replicate 4 1)).threads = [⟨.pause, 0, .returned⟩,
          ⟨.trafficBlock .machine .out 0, 1, .decided (tableAction .out [] .paused true)⟩] := by
      decide
    rw [hthreads]
    refine ⟨⟨_, _, rfl, rfl⟩, fun index thread hne hget ↦ ?_⟩
    match index with
    | 0 => rw [← Option.some.inj hget]
    | 1 => exact absurd rfl hne
    | later + 2 => cases hget

/-- A pause and a resume, about to be handled. -/
def pauseAndResume : ModeSystem :=
  ⟨queueing, [⟨.pause, 0, .entered⟩, ⟨.resume, 1, .entered⟩]⟩

/-- The resume is the last to write the file and the pause the last to store to memory: the file
says active, memory says paused, and the queue table that the file asks for is gone. -/
theorem pause_races_resume :
    Settled pauseAndResume.shared ∧ pauseAndResume.Fresh ∧
      (pauseAndResume.run ([0, 0, 1, 1, 1, 0] ++ List.replicate 5 0 ++
        List.replicate 5 1)).Finished ∧
      ¬ MemoryPersisted (pauseAndResume.run ([0, 0, 1, 1, 1, 0] ++ List.replicate 5 0 ++
        List.replicate 5 1)).shared ∧
      ¬ Settled (pauseAndResume.run ([0, 0, 1, 1, 1, 0] ++ List.replicate 5 0 ++
        List.replicate 5 1)).shared := by
  have hmemory : ¬ MemoryPersisted (pauseAndResume.run ([0, 0, 1, 1, 1, 0] ++
      List.replicate 5 0 ++ List.replicate 5 1)).shared := by decide
  exact ⟨settled_queueing, by decide, by decide, hmemory,
    fun hsettled ↦ hmemory hsettled.memory⟩

end InterFire
