import InterFire.Enforcement
import InterFire.Library.Run

/-!
# The threads of requests

Every connection is handled by a thread of its own, and no lock spans a request that changes a mode
or a preference: its thread checks the request, writes a file, stores to memory, reads the modes one
after the other, deletes the table and loads the new one, and the steps of other threads fall
between its own. `ModeSystem.step` is one atomic step of one thread, and a schedule is the list of
the threads that take the steps. `run_alone` says that a thread that runs alone computes
`Enforcement.handle`.
-/

set_option autoImplicit false
set_option relaxedAutoImplicit false

namespace InterFire

open Nftables Nft

/-! ### Threads -/

/-- The script that an action loads after it deleted the table. -/
def TableAction.script : TableAction → Option String
  | .remove => none
  | .install => some ownedTableScript
  | .composed compose =>
    if composeTrafficScript compose = "" then none else some (composeTrafficScript compose)

/-- The action that the modes of a state decide on. -/
def Enforcement.action (state : Enforcement) : TableAction :=
  tableAction state.machineTraffic state.userBlocks state.rulesMode state.queueBound

/-- Where a thread is: what it is about to do, with what it has read. -/
inductive ThreadPosition
  | entered
  | accepted
  | written
  | stored
  | gotMachine (machine : TrafficPreference)
  | gotUsers (machine : TrafficPreference) (users : List (UInt32 × TrafficPreference))
  | gotMode (machine : TrafficPreference) (users : List (UInt32 × TrafficPreference))
    (mode : EnforcementMode)
  | decided (action : TableAction)
  | deleted (script : String)
  | returned
  deriving DecidableEq, Repr

/-- The thread of one request, with the number of its temporary file. -/
structure RequestThread where
  request : ModeRequest
  sequence : ℕ
  position : ThreadPosition
  deriving DecidableEq, Repr

/-- A user's preference is in its file only. -/
def ModeRequest.isUser : ModeRequest → Bool
  | .trafficBlock .user _ _ => true
  | .trafficUnblock .user _ => true
  | _ => false

/-- One atomic step of a thread, every command and every write going through. -/
def RequestThread.step (thread : RequestThread) (shared : Enforcement) :
    Enforcement × ThreadPosition :=
  match thread.position with
  | .entered => (shared, if shared.accepts thread.request then .accepted else .returned)
  | .accepted =>
    ({ shared with files := (storeFile .done thread.sequence thread.request.fileName
        thread.request.content shared.files).1 },
      if thread.request.isUser then .stored else .written)
  | .written => (shared.remember thread.request, .stored)
  | .stored => (shared, .gotMachine shared.machineTraffic)
  | .gotMachine machine => (shared, .gotUsers machine shared.userBlocks)
  | .gotUsers machine users => (shared, .gotMode machine users shared.rulesMode)
  | .gotMode machine users mode =>
    (shared, .decided (tableAction machine users mode shared.queueBound))
  | .decided action =>
    ({ shared with table := (Nft.remove .done shared.table).1 },
      match action.script with
      | none => .returned
      | some script => .deleted script)
  | .deleted script =>
    ({ shared with table := (loadScript .done "" script shared.table).1 }, .returned)
  | .returned => (shared, .returned)

/-- A thread comes to its store by its write only. Assumes: its next position is the store. -/
theorem RequestThread.accepted_of_step_written {thread : RequestThread} {shared : Enforcement}
    (hwritten : (thread.step shared).2 = .written) : thread.position = .accepted := by
  cases hposition : thread.position with
  | accepted => rfl
  | entered =>
    simp only [RequestThread.step, hposition] at hwritten
    split_ifs at hwritten
  | decided action =>
    simp only [RequestThread.step, hposition] at hwritten
    split at hwritten <;> cases hwritten
  | _ =>
    simp only [RequestThread.step, hposition] at hwritten
    cases hwritten

/-- The shared state with the threads of the requests. -/
structure ModeSystem where
  shared : Enforcement
  threads : List RequestThread

namespace ModeSystem

/-- One step of the thread at an index; an index without a thread does nothing. -/
def step (system : ModeSystem) (index : ℕ) : ModeSystem :=
  match system.threads[index]? with
  | some thread =>
    { shared := (thread.step system.shared).1
      threads := system.threads.set index
        { thread with position := (thread.step system.shared).2 } }
  | none => system

/-- A run: the threads of the schedule take a step each. -/
def run (system : ModeSystem) (schedule : List ℕ) : ModeSystem := schedule.foldl step system

/-- Every request is about to be handled. -/
def Fresh (system : ModeSystem) : Prop := ∀ thread ∈ system.threads, thread.position = .entered

/-- Every request has been handled. -/
def Finished (system : ModeSystem) : Prop := ∀ thread ∈ system.threads, thread.position = .returned

instance (system : ModeSystem) : Decidable system.Fresh := List.decidableBAll _ _

instance (system : ModeSystem) : Decidable system.Finished := List.decidableBAll _ _

@[simp] theorem run_nil (system : ModeSystem) : system.run [] = system := rfl

@[simp] theorem run_cons (system : ModeSystem) (index : ℕ) (schedule : List ℕ) :
    system.run (index :: schedule) = (system.step index).run schedule := rfl

theorem run_append (system : ModeSystem) (first second : List ℕ) :
    system.run (first ++ second) = (system.run first).run second :=
  List.foldl_append

theorem step_of_none {system : ModeSystem} {index : ℕ} (hnone : system.threads[index]? = none) :
    system.step index = system := by
  rw [step, hnone]

theorem step_of_some {system : ModeSystem} {index : ℕ} {thread : RequestThread}
    (hsome : system.threads[index]? = some thread) :
    system.step index =
      { shared := (thread.step system.shared).1
        threads := system.threads.set index
          { thread with position := (thread.step system.shared).2 } } := by
  rw [step, hsome]

/-- The thread at an index after a step of that index. Assumes: it is there. -/
theorem getElem?_step_self {system : ModeSystem} {index : ℕ} {thread : RequestThread}
    (hsome : system.threads[index]? = some thread) :
    (system.step index).threads[index]? =
      some { thread with position := (thread.step system.shared).2 } := by
  rw [step_of_some hsome]
  exact List.getElem?_set_self (List.getElem?_eq_some_iff.mp hsome).1

/-- A step of one thread leaves the others where they are. Assumes: the indices differ. -/
theorem getElem?_step_of_ne (system : ModeSystem) {index other : ℕ} (hne : index ≠ other) :
    (system.step index).threads[other]? = system.threads[other]? := by
  unfold step
  split
  · exact List.getElem?_set_ne hne
  · rfl

/-- A thread after a step is one that did not move, or the one that took the step. Assumes: the
thread is there after the step. -/
theorem thread_step_cases {system : ModeSystem} {index other : ℕ} {after : RequestThread}
    (hafter : (system.step index).threads[other]? = some after) :
    (other ≠ index ∧ system.threads[other]? = some after) ∨
      (other = index ∧ ∃ thread, system.threads[index]? = some thread ∧
        after = { thread with position := (thread.step system.shared).2 }) := by
  by_cases heq : other = index
  · subst heq
    cases hthread : system.threads[other]? with
    | none =>
      rw [step_of_none hthread, hthread] at hafter
      cases hafter
    | some thread =>
      rw [getElem?_step_self hthread] at hafter
      exact .inr ⟨rfl, thread, rfl, (Option.some.inj hafter).symm⟩
  · rw [getElem?_step_of_ne system (Ne.symm heq)] at hafter
    exact .inl ⟨heq, hafter⟩

/-- The induction rule for runs of threads. Assumes: the property holds at the start and every step
preserves it. -/
theorem run_invariant (property : ModeSystem → Prop) {system : ModeSystem}
    (hstart : property system)
    (hstep : ∀ system index, property system → property (ModeSystem.step system index))
    (schedule : List ℕ) : property (system.run schedule) := by
  have hinvariant :=
    Run.stateAt_invariant step system schedule property hstart hstep schedule.length
  rwa [Run.stateAt_length] at hinvariant

end ModeSystem

/-- A successful action leaves the table of its script, or none. -/
theorem TableAction.run_success (action : TableAction) (prior : Option Table) :
    (action.run .success prior).1 =
      match action.script with
      | none => none
      | some script => (loadScript .done "" script none).1 := by
  have hload (failure script : String) : (loadScript .done failure script none).1 =
      (loadScript .done "" script none).1 := by
    cases hscript : parseScript script <;> simp [loadScript, hscript]
  cases action with
  | remove => rfl
  | install =>
    simp only [TableAction.run, TableAction.script, Nft.install, Nft.remove, NftOutcomes.success]
    exact hload _ ownedTableScript
  | composed compose =>
    simp only [TableAction.run, TableAction.script, installComposed, Nft.remove,
      NftOutcomes.success]
    split_ifs with hempty
    · rfl
    · exact hload _ (composeTrafficScript compose)

/-! ### One request alone -/

theorem step_alone (shared : Enforcement) (thread : RequestThread) :
    ModeSystem.step ⟨shared, [thread]⟩ 0 = ⟨(thread.step shared).1,
      [{ thread with position := (thread.step shared).2 }]⟩ := rfl

/-- From its reads on, a thread alone computes `reapply_table`. -/
theorem run_alone_of_stored (shared : Enforcement) (request : ModeRequest) (sequence : ℕ) :
    ModeSystem.run ⟨shared, [⟨request, sequence, .stored⟩]⟩ (List.replicate 6 0) =
      ⟨(shared.reapplyTable .success).1, [⟨request, sequence, .returned⟩]⟩ := by
  have htable : (shared.reapplyTable .success).1 =
      { shared with table := (shared.action.run .success shared.table).1 } := rfl
  rw [htable, TableAction.run_success]
  simp only [List.replicate, ModeSystem.run_cons, ModeSystem.run_nil, step_alone,
    RequestThread.step, Nft.remove]
  rw [← Enforcement.action]
  cases shared.action.script <;> rfl

/-- A thread that runs alone computes what the request does. -/
theorem run_alone (shared : Enforcement) (request : ModeRequest) (sequence : ℕ) :
    ModeSystem.run ⟨shared, [⟨request, sequence, .entered⟩]⟩ (List.replicate 9 0) =
      ⟨(shared.handle (.success sequence) request).1, [⟨request, sequence, .returned⟩]⟩ := by
  cases haccepts : shared.accepts request with
  | false =>
    obtain ⟨error, hrefused⟩ :=
      shared.handle_of_refused (.success sequence) request haccepts
    rw [hrefused]
    simp [List.replicate, step_alone, RequestThread.step, haccepts]
  | true =>
    rw [shared.handle_of_accepts _ _ haccepts, shared.perform_of_done _ _ rfl]
    have hreapply := run_alone_of_stored (shared.stored request sequence) request sequence
    have hschedule : List.replicate 9 0 = [0, 0] ++ (0 :: List.replicate 6 0) := rfl
    rw [hschedule, ModeSystem.run_append]
    cases huser : request.isUser with
    | false =>
      have hstored :
          ModeSystem.step (ModeSystem.run ⟨shared, [⟨request, sequence, .entered⟩]⟩ [0, 0]) 0 =
          ⟨shared.stored request sequence, [⟨request, sequence, .stored⟩]⟩ := by
        simp [step_alone, RequestThread.step, haccepts, huser, Enforcement.stored]
      rw [ModeSystem.run_cons, hstored]
      exact hreapply
    | true =>
      -- A user request has no store, so the last step finds it returned.
      have hremember (files : Directory) :
          ({ shared with files } : Enforcement).remember request = { shared with files } := by
        cases request with
        | trafficBlock scope preference uid => cases scope <;> simp_all [ModeRequest.isUser,
            Enforcement.remember]
        | trafficUnblock scope uid => cases scope <;> simp_all [ModeRequest.isUser,
            Enforcement.remember]
        | _ => simp [ModeRequest.isUser] at huser
      have hstored : ModeSystem.run ⟨shared, [⟨request, sequence, .entered⟩]⟩ [0, 0] =
          ⟨shared.stored request sequence, [⟨request, sequence, .stored⟩]⟩ := by
        simp [step_alone, RequestThread.step, haccepts, huser, Enforcement.stored, hremember]
      have hlast : (0 :: List.replicate 6 0 : List ℕ) = List.replicate 6 0 ++ [0] := rfl
      rw [hstored, hlast, ModeSystem.run_append, hreapply]
      rfl

end InterFire
