import InterFire.AuditLog
import InterFire.Library.FiniteMap

/-!
# Streams of audit records

The subscribers of `AuditLog` and their threads, from `crates/interfire-daemon/src/audit.rs` and
`audit_subscribe` of `crates/interfire-daemon/src/ipc.rs`. A subscription has a bounded channel and a
thread. The thread writes the records that memory had when the subscription was attached, then what
it receives. An append sends the record to every registered channel and drops the registration when
the channel is full or its thread has gone; a second subscription with the same id replaces the first
and tells it so when the channel has room.

A step is a section of the code under the lock of the log, or one receive or write of a thread. An
append is taken with the file that it finds, for memory does not depend on how the writing of the
file goes.

`audit_stream_has_no_gaps` is about every order of these steps: what a thread has written is the
beginning of what is due to its subscription, and after a full channel, a failed write or a
replacement it writes nothing that is appended later, and ends.
-/

set_option autoImplicit false
set_option relaxedAutoImplicit false

namespace InterFire

inductive Fanout
  | record (record : BoundedLogRecord)
  | replaced
  deriving DecidableEq, Repr

/-- The records among what a channel carries. -/
def Fanout.record? : Fanout → Option BoundedLogRecord
  | .record entry => some entry
  | .replaced => none

def subscriberChannelCapacity : ℕ := 256

/-- Where a thread is: in `run_subscriber`, between its end and the callback, or past the end. It is
`exiting true` after a failed write and `exiting false` after the channel was closed. -/
inductive SubscriberPhase
  | running
  | exiting (failed : Bool)
  | ended
  deriving DecidableEq, Repr

/-- A thread with the channel that it reads, the event that it has received and not handled, and the
records whose frames it has written. -/
structure Subscriber where
  id : String
  phase : SubscriberPhase
  backlog : List BoundedLogRecord
  queue : List Fanout
  current : Option Fanout
  written : List BoundedLogRecord
  deriving DecidableEq, Repr

namespace Subscriber

/-- The channel has room and a receiver. -/
def accepts (thread : Subscriber) : Bool :=
  thread.phase ≠ .ended ∧ thread.queue.length < subscriberChannelCapacity

def trySend (thread : Subscriber) (event : Fanout) : Subscriber :=
  if thread.accepts then { thread with queue := thread.queue ++ [event] } else thread

@[simp] theorem trySend_id (thread : Subscriber) (event : Fanout) :
    (thread.trySend event).id = thread.id := by
  rw [trySend]
  split_ifs <;> rfl

@[simp] theorem trySend_phase (thread : Subscriber) (event : Fanout) :
    (thread.trySend event).phase = thread.phase := by
  rw [trySend]
  split_ifs <;> rfl

@[simp] theorem trySend_written (thread : Subscriber) (event : Fanout) :
    (thread.trySend event).written = thread.written := by
  rw [trySend]
  split_ifs <;> rfl

/-- Write a frame, or leave `run_subscriber` when that fails. -/
def write (thread : Subscriber) (record : BoundedLogRecord) (ok : Bool) : Subscriber :=
  if ok then { thread with written := thread.written ++ [record] }
  else { thread with phase := .exiting true }

@[simp] theorem write_id (thread : Subscriber) (record : BoundedLogRecord) (ok : Bool) :
    (thread.write record ok).id = thread.id := by
  rw [write]
  split_ifs <;> rfl

/-- The next receive or write of a thread. `connected` is whether its channel has a sender, and `ok`
whether a write succeeds. -/
def advance (thread : Subscriber) (connected ok : Bool) : Subscriber :=
  match thread.phase with
  | .ended => thread
  | .exiting _ => { thread with phase := .ended }
  | .running =>
    match thread.backlog, thread.current, thread.queue with
    | record :: rest, _, _ => { thread with backlog := rest }.write record ok
    | [], some (.record record), _ => { thread with current := none }.write record ok
    | [], some .replaced, _ => { thread with phase := .ended }
    | [], none, event :: rest => { thread with current := some event, queue := rest }
    | [], none, [] => if connected then thread else { thread with phase := .exiting false }

@[simp] theorem advance_id (thread : Subscriber) (connected ok : Bool) :
    (thread.advance connected ok).id = thread.id := by
  unfold advance
  split
  · rfl
  · rfl
  · split
    · exact write_id _ _ _
    · exact write_id _ _ _
    · rfl
    · rfl
    · split_ifs <;> rfl

/-- The records that a thread has not yet written. -/
def pending (thread : Subscriber) : List BoundedLogRecord :=
  thread.backlog ++ (thread.current.toList ++ thread.queue).filterMap Fanout.record?

/-- The steps until a thread whose channel is closed leaves `run_subscriber`. -/
def remaining (thread : Subscriber) : ℕ :=
  thread.backlog.length + thread.current.toList.length + 2 * thread.queue.length + 1

end Subscriber

/-- The log with its subscribers and their threads. A sender is the index of the thread that
receives from it. -/
structure AuditStreams where
  log : AuditLog
  subscribers : FiniteMap String ℕ
  threads : List Subscriber
  owned : ∀ id sender, subscribers.get id = some sender →
    ∃ thread, threads[sender]? = some thread ∧ thread.id = id

namespace AuditStreams

/-- The sender of a thread is registered. -/
def connected (streams : AuditStreams) (index : ℕ) (thread : Subscriber) : Bool :=
  streams.subscribers.get thread.id = some index

/-- Send an event to every subscriber, and drop those whose channel does not take it. -/
def fanout (streams : AuditStreams) (event : Fanout) : AuditStreams where
  log := streams.log
  subscribers := streams.subscribers.retain fun _ sender ↦
    streams.threads[sender]?.any Subscriber.accepts
  threads := streams.threads.mapIdx fun index thread ↦
    if streams.connected index thread then thread.trySend event else thread
  owned := by
    intro id sender hget
    rw [FiniteMap.get_retain, Option.filter_eq_some_iff] at hget
    obtain ⟨thread, hthread, hid⟩ := streams.owned id sender hget.1
    rw [List.getElem?_mapIdx, hthread]
    refine ⟨_, rfl, ?_⟩
    dsimp only
    split_ifs
    · rw [Subscriber.trySend_id, hid]
    · exact hid

/-- Append a message while the file is `file`. -/
def append (streams : AuditStreams) (file : Option (List Char)) (message : String) :
    AuditStreams :=
  { streams with log := (streams.log.append file message).1 }.fanout
    (.record (streams.log.nextRecord message))

/-- The thread of a new subscription. -/
def newThread (id : String) (backlog : List BoundedLogRecord) : Subscriber :=
  { id, phase := .running, backlog, queue := [], current := none, written := [] }

/-- The threads after a subscription of an id was told that it is replaced. -/
def notify (streams : AuditStreams) (id : String) : List Subscriber :=
  match streams.subscribers.get id with
  | some previous => streams.threads.modify previous (·.trySend .replaced)
  | none => streams.threads

theorem getElem?_notify (streams : AuditStreams) (id : String) (index : ℕ) :
    (streams.notify id)[index]? = streams.threads[index]?.map fun thread ↦
      if streams.subscribers.get id = some index then thread.trySend .replaced else thread := by
  rw [notify]
  split
  · next previous hprevious =>
    rw [List.getElem?_modify, hprevious]
    simp only [Option.some_inj]
    rfl
  · next hnone => simp [hnone]

@[simp] theorem length_notify (streams : AuditStreams) (id : String) :
    (streams.notify id).length = streams.threads.length := by
  rw [notify]
  split
  · rw [List.length_modify]
  · rfl

/-- Register an id with a new thread, replacing an earlier subscription with the same id. -/
def subscribe (streams : AuditStreams) (id : String) (backlog : List BoundedLogRecord) :
    AuditStreams where
  log := streams.log
  subscribers := streams.subscribers.insert id streams.threads.length
  threads := streams.notify id ++ [newThread id backlog]
  owned := by
    intro other sender hget
    rw [FiniteMap.get_insert] at hget
    split_ifs at hget with hsame
    · obtain rfl := Option.some.inj hget
      refine ⟨newThread id backlog, ?_, hsame.symm⟩
      rw [← length_notify streams id, List.getElem?_concat_length]
    · obtain ⟨thread, hthread, hid⟩ := streams.owned other sender hget
      have hlt : sender < streams.threads.length := (List.getElem?_eq_some_iff.mp hthread).1
      rw [List.getElem?_append_left (by rwa [length_notify]), getElem?_notify, hthread]
      refine ⟨_, rfl, ?_⟩
      split_ifs
      · rw [Subscriber.trySend_id, hid]
      · exact hid

def attachSubscriber (streams : AuditStreams) (id : String) (since : UInt64) : AuditStreams :=
  streams.subscribe id (streams.log.since since)

/-- An id that `audit_subscribe` accepts. -/
def ValidSubscriber (id : String) : Prop :=
  ¬ id.isEmpty ∧ '|' ∉ id.toList ∧ ' ' ∉ id.toList

instance (id : String) : Decidable (ValidSubscriber id) :=
  inferInstanceAs (Decidable (_ ∧ _))

/-- The request for a stream. `confirmed` is whether the answer can be written. -/
def auditSubscribe (streams : AuditStreams) (id : String) (since : UInt64) (confirmed : Bool) :
    AuditStreams :=
  if ValidSubscriber id ∧ confirmed then streams.attachSubscriber id since else streams

def removeSubscriber (streams : AuditStreams) (id : String) : AuditStreams :=
  { streams with
    subscribers := streams.subscribers.remove id
    owned := by
      intro other sender hget
      rw [FiniteMap.get_remove] at hget
      split_ifs at hget
      exact streams.owned other sender hget }

/-- The callback of a thread that has left `run_subscriber`. -/
def onExit (streams : AuditStreams) (index : ℕ) : AuditStreams :=
  match streams.threads[index]? with
  | some ⟨id, .exiting _, _, _, _, _⟩ => streams.removeSubscriber id
  | _ => streams

/-- A registration after the callback was there before. -/
theorem get_of_get_onExit (streams : AuditStreams) {index sender : ℕ} {id : String}
    (hget : (streams.onExit index).subscribers.get id = some sender) :
    streams.subscribers.get id = some sender := by
  rw [onExit] at hget
  split at hget
  · rw [removeSubscriber, FiniteMap.get_remove] at hget
    split_ifs at hget
    exact hget
  · exact hget

/-- The next step of a thread. -/
def advance (streams : AuditStreams) (index : ℕ) (ok : Bool) : AuditStreams where
  log := streams.log
  subscribers := (streams.onExit index).subscribers
  threads := streams.threads.modify index fun thread ↦
    thread.advance (streams.connected index thread) ok
  owned := by
    intro id sender hget
    obtain ⟨thread, hthread, hid⟩ := streams.owned id sender (streams.get_of_get_onExit hget)
    rw [List.getElem?_modify, hthread]
    refine ⟨_, rfl, ?_⟩
    dsimp only
    split_ifs
    · rw [Subscriber.advance_id, hid]
    · exact hid

/-- A log without subscribers. -/
def start (log : AuditLog) : AuditStreams where
  log := log
  subscribers := .empty
  threads := []
  owned := by
    intro id sender hget
    rw [FiniteMap.get_empty] at hget
    cases hget

end AuditStreams

/-- What happens to the log and its subscribers. -/
inductive StreamOp
  | append (message : String) (file : Option (List Char))
  | subscribe (id : String) (since : UInt64) (confirmed : Bool)
  | advance (thread : ℕ) (ok : Bool)
  deriving DecidableEq, Repr

namespace AuditStreams

def step (streams : AuditStreams) : StreamOp → AuditStreams
  | .append message file => streams.append file message
  | .subscribe id since confirmed => streams.auditSubscribe id since confirmed
  | .advance index ok => streams.advance index ok

/-- The state after a list of steps. -/
def after (streams : AuditStreams) (ops : List StreamOp) : AuditStreams :=
  ops.foldl step streams

/-- The record that a step appends. -/
def appendedBy (streams : AuditStreams) : StreamOp → List BoundedLogRecord
  | .append message _ => [streams.log.nextRecord message]
  | .subscribe _ _ _ => []
  | .advance _ _ => []

/-- The records that a list of steps appends. -/
def appends (streams : AuditStreams) : List StreamOp → List BoundedLogRecord
  | [] => []
  | op :: rest => streams.appendedBy op ++ (streams.step op).appends rest

end AuditStreams

/-! ### Steps of a thread -/

namespace Subscriber

variable {thread : Subscriber}

/-- A thread whose next step is a write of a record. -/
def Writing (thread : Subscriber) : Prop :=
  thread.phase = .running ∧
    (thread.backlog ≠ [] ∨ ∃ record, thread.current = some (.record record))

/-- What a step of a thread can do. -/
inductive Moves (thread : Subscriber) (connected ok : Bool) : Subscriber → Prop
  | finish (hphase : thread.phase ≠ .running) :
      Moves thread connected ok { thread with phase := .ended }
  | backlog {record : BoundedLogRecord} {rest : List BoundedLogRecord}
      (hphase : thread.phase = .running) (hbacklog : thread.backlog = record :: rest) :
      Moves thread connected ok
        { thread with backlog := rest, written := thread.written ++ [record] }
  | record {record : BoundedLogRecord} (hphase : thread.phase = .running)
      (hbacklog : thread.backlog = []) (hcurrent : thread.current = some (.record record)) :
      Moves thread connected ok
        { thread with current := none, written := thread.written ++ [record] }
  | fail {backlog : List BoundedLogRecord} {current : Option Fanout} (hwriting : thread.Writing)
      (hok : ok = false) :
      Moves thread connected ok { thread with phase := .exiting true, backlog, current }
  | replaced (hphase : thread.phase = .running) (hcurrent : thread.current = some .replaced) :
      Moves thread connected ok { thread with phase := .ended }
  | receive {event : Fanout} {rest : List Fanout} (hphase : thread.phase = .running)
      (hbacklog : thread.backlog = []) (hcurrent : thread.current = none)
      (hqueue : thread.queue = event :: rest) :
      Moves thread connected ok { thread with current := some event, queue := rest }
  | wait (hphase : thread.phase = .running) (hconnected : connected = true) :
      Moves thread connected ok thread
  | closed (hphase : thread.phase = .running) (hbacklog : thread.backlog = [])
      (hcurrent : thread.current = none) (hqueue : thread.queue = [])
      (hconnected : connected = false) :
      Moves thread connected ok { thread with phase := .exiting false }

theorem moves_advance (thread : Subscriber) (connected ok : Bool) :
    thread.Moves connected ok (thread.advance connected ok) := by
  unfold advance
  split
  · next hphase =>
    have hfinish : thread.Moves connected ok { thread with phase := .ended } :=
      .finish (by rw [hphase]; exact nofun)
    rw [← hphase] at hfinish
    exact hfinish
  · next hphase => exact .finish (by rw [hphase]; exact nofun)
  · next hphase =>
    split
    · next record rest _ hbacklog =>
      rw [write]
      split_ifs with hok
      · exact .backlog hphase hbacklog
      · exact .fail ⟨hphase, .inl (by rw [hbacklog]; exact nofun)⟩ (Bool.eq_false_iff.mpr hok)
    · next record hbacklog hcurrent =>
      rw [write]
      split_ifs with hok
      · exact .record hphase hbacklog hcurrent
      · exact .fail ⟨hphase, .inr ⟨record, hcurrent⟩⟩ (Bool.eq_false_iff.mpr hok)
    · next hbacklog hcurrent => exact .replaced hphase hcurrent
    · next event rest hbacklog hcurrent hqueue => exact .receive hphase hbacklog hcurrent hqueue
    · next hbacklog hcurrent hqueue =>
      split_ifs with hconnected
      · exact .wait hphase hconnected
      · exact .closed hphase hbacklog hcurrent hqueue (Bool.eq_false_iff.mpr hconnected)

/-- A failed write ends `run_subscriber`. Assumes: the next step is a write. -/
theorem phase_advance_of_writing (hwriting : thread.Writing) {connected : Bool} :
    (thread.advance connected false).phase = .exiting true := by
  obtain ⟨hphase, hsource⟩ := hwriting
  unfold advance
  rw [hphase]
  dsimp only
  split
  · rfl
  · rfl
  · next hbacklog hcurrent => simp [hbacklog, hcurrent] at hsource
  · next hbacklog hcurrent _ => simp [hbacklog, hcurrent] at hsource
  · next hbacklog hcurrent _ => simp [hbacklog, hcurrent] at hsource

/-- Only a thread that runs goes on running. -/
theorem running_of_running_advance {connected ok : Bool}
    (hafter : (thread.advance connected ok).phase = .running) : thread.phase = .running := by
  have hmoves := thread.moves_advance connected ok
  generalize thread.advance connected ok = next at hmoves hafter
  cases hmoves with
  | finish => cases hafter
  | fail hwriting => exact hwriting.1
  | backlog hphase | record hphase | replaced hphase | receive hphase | wait hphase
  | closed hphase => exact hphase

/-- A step of a thread whose channel is closed is one of those it has left. Assumes: the thread runs
after it. -/
theorem remaining_advance_lt {connected ok : Bool}
    (hafter : (thread.advance connected ok).phase = .running) (hclosed : connected = false) :
    (thread.advance connected ok).remaining < thread.remaining := by
  have hmoves := thread.moves_advance connected ok
  generalize thread.advance connected ok = next at hmoves hafter ⊢
  cases hmoves with
  | finish | fail | replaced | closed => cases hafter
  | backlog hphase hbacklog => simp [remaining, hbacklog]
  | record hphase hbacklog hcurrent => simp [remaining, hcurrent]
  | receive hphase hbacklog hcurrent hqueue =>
    simp only [remaining, hcurrent, hqueue, Option.toList_some, Option.toList_none,
      List.length_cons, List.length_nil]
    omega
  | wait hphase hconnected =>
    rw [hclosed] at hconnected
    cases hconnected

/-- What a thread has written, and what it may still write, begins what is due. -/
structure Follows (thread : Subscriber) (due : List BoundedLogRecord) : Prop where
  written : thread.written <+: due
  pending : thread.phase = .running → thread.written ++ thread.pending <+: due

/-- A thread that runs has written all that is due, but for what it holds, and no replacement is on
its way to it. -/
structure Holds (thread : Subscriber) (due : List BoundedLogRecord) : Prop where
  all : thread.phase = .running → thread.written ++ thread.pending = due
  unreplaced : thread.phase = .running → .replaced ∉ thread.current.toList ++ thread.queue

variable {due : List BoundedLogRecord}

theorem Follows.mono {later : List BoundedLogRecord} (hfollows : thread.Follows due)
    (hlater : due <+: later) : thread.Follows later :=
  ⟨hfollows.written.trans hlater, fun hrunning ↦ (hfollows.pending hrunning).trans hlater⟩

/-- A step hands one record from those pending to those written, or leaves both as they are. -/
theorem Moves.written_pending {connected ok : Bool} {next : Subscriber}
    (hmoves : thread.Moves connected ok next) :
    next.written = thread.written ∧ next.phase ≠ .running ∨
      thread.phase = .running ∧ next.phase = .running ∧
        next.written ++ next.pending = thread.written ++ thread.pending := by
  cases hmoves with
  | finish | fail | replaced | closed => exact .inl ⟨rfl, nofun⟩
  | backlog hphase hbacklog =>
    refine .inr ⟨hphase, hphase, ?_⟩
    simp [pending, hbacklog]
  | record hphase hbacklog hcurrent =>
    refine .inr ⟨hphase, hphase, ?_⟩
    simp [pending, hbacklog, hcurrent, Fanout.record?]
  | receive hphase hbacklog hcurrent hqueue =>
    refine .inr ⟨hphase, hphase, ?_⟩
    simp [pending, hcurrent, hqueue]
  | wait hphase => exact .inr ⟨hphase, hphase, rfl⟩

theorem Follows.advance {connected ok : Bool} (hfollows : thread.Follows due) :
    (thread.advance connected ok).Follows due := by
  rcases (thread.moves_advance connected ok).written_pending with
    ⟨hwritten, hphase⟩ | ⟨hbefore, _, hsame⟩
  · exact ⟨hwritten ▸ hfollows.written, fun hrunning ↦ absurd hrunning hphase⟩
  · have hpending := hfollows.pending hbefore
    rw [← hsame] at hpending
    exact ⟨(List.prefix_append _ _).trans hpending, fun _ ↦ hpending⟩

theorem Holds.advance {connected ok : Bool} (hholds : thread.Holds due) :
    (thread.advance connected ok).Holds due := by
  have hmoves := thread.moves_advance connected ok
  refine ⟨fun hrunning ↦ ?_, fun hrunning ↦ ?_⟩
  · rcases hmoves.written_pending with ⟨_, hphase⟩ | ⟨hbefore, _, hsame⟩
    · exact absurd hrunning hphase
    · rw [hsame, hholds.all hbefore]
  · generalize thread.advance connected ok = next at hmoves hrunning ⊢
    cases hmoves with
    | finish | fail | replaced | closed => exact absurd hrunning nofun
    | backlog hphase => exact hholds.unreplaced hphase
    | record hphase hbacklog hcurrent =>
      have hnot := hholds.unreplaced hphase
      simp only [hcurrent, Option.toList_some, List.cons_append, List.nil_append,
        List.mem_cons, not_or] at hnot
      exact hnot.2
    | receive hphase hbacklog hcurrent hqueue =>
      have hnot := hholds.unreplaced hphase
      simpa [hcurrent, hqueue] using hnot
    | wait hphase => exact hholds.unreplaced hphase

/-- A sent event becomes the last one of the channel. Assumes: the channel takes it. -/
theorem trySend_of_accepts (haccepts : thread.accepts) (event : Fanout) :
    thread.trySend event = { thread with queue := thread.queue ++ [event] } := by
  rw [trySend, if_pos haccepts]

/-- A notice of replacement is no record. -/
theorem Follows.trySend_replaced (hfollows : thread.Follows due) :
    (thread.trySend .replaced).Follows due := by
  rw [trySend]
  split_ifs
  · refine ⟨hfollows.written, fun hrunning ↦ ?_⟩
    have hpending := hfollows.pending hrunning
    simpa [Subscriber.pending, List.filterMap_cons, Fanout.record?] using hpending
  · exact hfollows

/-- A record that is sent to a thread is due to it. Assumes: the thread holds what was due before,
and its channel takes the record. -/
theorem Holds.trySend_record (hholds : thread.Holds due) (haccepts : thread.accepts)
    (record : BoundedLogRecord) : (thread.trySend (.record record)).Holds (due ++ [record]) := by
  rw [trySend_of_accepts haccepts]
  refine ⟨fun hrunning ↦ ?_, fun hrunning ↦ ?_⟩
  · rw [← hholds.all hrunning]
    simp [pending, Fanout.record?]
  · have hnot := hholds.unreplaced hrunning
    simpa using hnot

end Subscriber

/-! ### Steps of the system -/

namespace AuditStreams

variable {streams : AuditStreams} {index : ℕ} {thread : Subscriber}

@[simp] theorem connected_iff :
    streams.connected index thread ↔ streams.subscribers.get thread.id = some index :=
  decide_eq_true_iff

/-- An id is still registered for a thread after an event was sent exactly when it was before and the
channel took the event. Assumes: there is the thread. -/
theorem get_fanout_iff (hthread : streams.threads[index]? = some thread) (event : Fanout)
    (id : String) : (streams.fanout event).subscribers.get id = some index ↔
      streams.subscribers.get id = some index ∧ thread.accepts := by
  rw [fanout, FiniteMap.get_retain, Option.filter_eq_some_iff, hthread, Option.any_some]

/-- A thread after an event was sent. Assumes: there is the thread. -/
theorem getElem?_fanout (hthread : streams.threads[index]? = some thread) (event : Fanout) :
    (streams.fanout event).threads[index]? =
      some (if streams.connected index thread then thread.trySend event else thread) := by
  rw [fanout, List.getElem?_mapIdx, hthread, Option.map_some]

theorem get_append_iff (hthread : streams.threads[index]? = some thread)
    (file : Option (List Char)) (message id : String) :
    (streams.append file message).subscribers.get id = some index ↔
      streams.subscribers.get id = some index ∧ thread.accepts :=
  @get_fanout_iff { streams with log := (streams.log.append file message).1 } index thread hthread
    (.record (streams.log.nextRecord message)) id

theorem getElem?_append (hthread : streams.threads[index]? = some thread)
    (file : Option (List Char)) (message : String) :
    (streams.append file message).threads[index]? =
      some (if streams.connected index thread
        then thread.trySend (.record (streams.log.nextRecord message)) else thread) :=
  @getElem?_fanout { streams with log := (streams.log.append file message).1 } index thread hthread
    (.record (streams.log.nextRecord message))

/-- A request for a stream is refused or attaches a subscriber. -/
theorem auditSubscribe_cases (streams : AuditStreams) (id : String) (since : UInt64)
    (confirmed : Bool) :
    ¬ (ValidSubscriber id ∧ confirmed) ∧ streams.auditSubscribe id since confirmed = streams ∨
      (ValidSubscriber id ∧ confirmed) ∧ streams.auditSubscribe id since confirmed =
        streams.subscribe id (streams.log.since since) := by
  rw [auditSubscribe]
  split_ifs with haccepted
  · exact .inr ⟨haccepted, rfl⟩
  · exact .inl ⟨haccepted, rfl⟩

/-- A thread after a subscription. Assumes: there was the thread. -/
theorem getElem?_subscribe (hthread : streams.threads[index]? = some thread) (id : String)
    (backlog : List BoundedLogRecord) :
    (streams.subscribe id backlog).threads[index]? = some
      (if streams.subscribers.get id = some index then thread.trySend .replaced else thread) := by
  have hlt : index < streams.threads.length := (List.getElem?_eq_some_iff.mp hthread).1
  rw [subscribe, List.getElem?_append_left (by rwa [length_notify]), getElem?_notify, hthread,
    Option.map_some]

/-- The thread of a subscription. -/
theorem getElem?_subscribe_length (streams : AuditStreams) (id : String)
    (backlog : List BoundedLogRecord) :
    (streams.subscribe id backlog).threads[streams.threads.length]? =
      some (newThread id backlog) := by
  have hlast : (streams.notify id ++ [newThread id backlog])[(streams.notify id).length]? =
      some (newThread id backlog) := List.getElem?_concat_length
  rwa [length_notify] at hlast

/-- An id is registered for an earlier thread after a subscription exactly when it was before and is
another id. Assumes: there was the thread. -/
theorem get_subscribe_iff (hthread : streams.threads[index]? = some thread) (id other : String)
    (backlog : List BoundedLogRecord) :
    (streams.subscribe id backlog).subscribers.get other = some index ↔
      other ≠ id ∧ streams.subscribers.get other = some index := by
  have hne : streams.threads.length ≠ index := by
    have hlt : index < streams.threads.length := (List.getElem?_eq_some_iff.mp hthread).1
    omega
  rw [subscribe, FiniteMap.get_insert]
  split_ifs with hsame
  · simp [hsame, hne]
  · simp [hsame]

/-- A thread after a step of a thread. Assumes: there is the thread. -/
theorem getElem?_advance (hthread : streams.threads[index]? = some thread) (moved : ℕ) (ok : Bool) :
    (streams.advance moved ok).threads[index]? = some
      (if moved = index then thread.advance (streams.connected index thread) ok else thread) := by
  rw [advance, List.getElem?_modify, hthread]
  split_ifs with hsame
  · rw [hsame]
    rfl
  · rfl

/-- What is due to a thread of the system begins with what it has written, and it has missed nothing
while it is registered. -/
def Streaming (streams : AuditStreams) (index : ℕ) (due : List BoundedLogRecord) : Prop :=
  ∃ thread, streams.threads[index]? = some thread ∧ thread.Follows due ∧
    (streams.connected index thread → thread.Holds due)

theorem Streaming.append {due : List BoundedLogRecord} (hstreaming : streams.Streaming index due)
    (file : Option (List Char)) (message : String) :
    (streams.append file message).Streaming index (due ++ [streams.log.nextRecord message]) := by
  obtain ⟨thread, hthread, hfollows, hholds⟩ := hstreaming
  set record := streams.log.nextRecord message
  have hlater := hfollows.mono (List.prefix_append due [record])
  refine ⟨_, getElem?_append hthread file message, ?_, fun hconnected ↦ ?_⟩
  · split_ifs with hregistered
    · by_cases haccepts : thread.accepts
      · have hnow := (hholds hregistered).trySend_record haccepts record
        refine ⟨?_, fun hrunning ↦ by rw [hnow.all hrunning]⟩
        rw [Subscriber.trySend_of_accepts haccepts]
        exact hlater.written
      · rw [Subscriber.trySend, if_neg haccepts]
        exact hlater
    · exact hlater
  · have hid : (if streams.connected index thread then thread.trySend (.record record)
        else thread).id = thread.id := by
      split_ifs
      · exact Subscriber.trySend_id _ _
      · rfl
    rw [connected_iff, hid, get_append_iff hthread] at hconnected
    rw [if_pos (connected_iff.mpr hconnected.1)]
    exact (hholds (connected_iff.mpr hconnected.1)).trySend_record hconnected.2 record

theorem Streaming.subscribe {due : List BoundedLogRecord}
    (hstreaming : streams.Streaming index due) (id : String) (backlog : List BoundedLogRecord) :
    (streams.subscribe id backlog).Streaming index due := by
  obtain ⟨thread, hthread, hfollows, hholds⟩ := hstreaming
  refine ⟨_, getElem?_subscribe hthread id backlog, ?_, fun hconnected ↦ ?_⟩
  · split_ifs
    · exact hfollows.trySend_replaced
    · exact hfollows
  · rw [connected_iff, get_subscribe_iff hthread] at hconnected
    split_ifs at hconnected ⊢ with hprevious
    · -- The thread of the replaced id is no longer registered.
      obtain ⟨previous, hsame, hid⟩ := streams.owned id index hprevious
      obtain rfl := Option.some.inj (hthread.symm.trans hsame)
      exact absurd hid (by simpa using hconnected.1)
    · exact hholds (connected_iff.mpr hconnected.2)

theorem Streaming.advance {due : List BoundedLogRecord}
    (hstreaming : streams.Streaming index due) (moved : ℕ) (ok : Bool) :
    (streams.advance moved ok).Streaming index due := by
  obtain ⟨thread, hthread, hfollows, hholds⟩ := hstreaming
  refine ⟨_, getElem?_advance hthread moved ok, ?_, fun hconnected ↦ ?_⟩
  · split_ifs
    · exact hfollows.advance
    · exact hfollows
  · have hbefore := streams.get_of_get_onExit (connected_iff.mp hconnected)
    split_ifs at hbefore ⊢
    · rw [Subscriber.advance_id] at hbefore
      exact (hholds (connected_iff.mpr hbefore)).advance
    · exact hholds (connected_iff.mpr hbefore)

/-- Every step keeps the records of a stream in order. -/
theorem Streaming.step {due : List BoundedLogRecord} (hstreaming : streams.Streaming index due)
    (op : StreamOp) : (streams.step op).Streaming index (due ++ streams.appendedBy op) := by
  cases op with
  | append message file => exact hstreaming.append file message
  | subscribe id since confirmed =>
    rw [appendedBy, List.append_nil, AuditStreams.step]
    rcases streams.auditSubscribe_cases id since confirmed with ⟨_, hstep⟩ | ⟨_, hstep⟩
    · rwa [hstep]
    · rw [hstep]
      exact hstreaming.subscribe _ _
  | advance moved ok =>
    rw [appendedBy, List.append_nil, AuditStreams.step]
    exact hstreaming.advance moved ok

/-- The records of a stream stay in order along a run. -/
theorem Streaming.after {due : List BoundedLogRecord} (hstreaming : streams.Streaming index due)
    (ops : List StreamOp) : (streams.after ops).Streaming index (due ++ streams.appends ops) := by
  induction ops generalizing streams due with
  | nil => simpa [appends, AuditStreams.after] using hstreaming
  | cons op rest ih =>
    rw [appends, ← List.append_assoc]
    exact ih (hstreaming.step op)

/-- A new subscription has missed nothing. -/
theorem streaming_subscribe (streams : AuditStreams) (id : String)
    (backlog : List BoundedLogRecord) :
    (streams.subscribe id backlog).Streaming streams.threads.length backlog := by
  refine ⟨_, getElem?_subscribe_length streams id backlog, ⟨List.nil_prefix, fun _ ↦ ?_⟩, fun _ ↦ ⟨fun _ ↦ ?_, fun _ ↦ ?_⟩⟩
  · simp [newThread, Subscriber.pending]
  · simp [newThread, Subscriber.pending]
  · simp [newThread]

/-! ### The end of a stream -/

/-- A step after which a thread gets no more records: its channel is full at an append, its id is
subscribed to again, or its write fails. -/
def Ends (index : ℕ) (thread : Subscriber) : StreamOp → Prop
  | .append _ _ => subscriberChannelCapacity ≤ thread.queue.length
  | .subscribe id _ confirmed => id = thread.id ∧ ValidSubscriber id ∧ confirmed
  | .advance moved ok => moved = index ∧ thread.Writing ∧ ok = false

/-- A thread that still runs is not registered, and what it holds is due. -/
def Closing (streams : AuditStreams) (index : ℕ) (due : List BoundedLogRecord) : Prop :=
  ∃ thread, streams.threads[index]? = some thread ∧ thread.Follows due ∧
    (thread.phase = .running → ¬ streams.connected index thread)

/-- A stream that gets no more records is closing. Assumes: it was streaming. -/
theorem Streaming.closing {due : List BoundedLogRecord} (hstreaming : streams.Streaming index due)
    (hthread : streams.threads[index]? = some thread) {op : StreamOp}
    (hends : Ends index thread op) : (streams.step op).Closing index due := by
  obtain ⟨same, hsame, hfollows, hholds⟩ := hstreaming
  obtain rfl := Option.some.inj (hthread.symm.trans hsame)
  cases op with
  | append message file =>
    have hfull : ¬ thread.accepts := by
      simp only [Subscriber.accepts, decide_eq_true_eq, not_and, not_lt]
      exact fun _ ↦ hends
    have hunsent : thread.trySend (.record (streams.log.nextRecord message)) = thread := by
      rw [Subscriber.trySend, if_neg hfull]
    refine ⟨thread, ?_, hfollows, fun _ hconnected ↦ ?_⟩
    · rw [AuditStreams.step, getElem?_append hthread, hunsent, ite_self]
    · rw [connected_iff, AuditStreams.step, get_append_iff hthread] at hconnected
      exact hfull hconnected.2
  | subscribe id since confirmed =>
    obtain ⟨rfl, haccepted⟩ := hends
    rcases streams.auditSubscribe_cases thread.id since confirmed with
      ⟨hrefused, _⟩ | ⟨_, hstep⟩
    · exact absurd haccepted hrefused
    · rw [AuditStreams.step, hstep]
      refine ⟨_, getElem?_subscribe hthread _ _, ?_, fun _ hconnected ↦ ?_⟩
      · split_ifs
        · exact hfollows.trySend_replaced
        · exact hfollows
      · rw [connected_iff, get_subscribe_iff hthread] at hconnected
        split_ifs at hconnected
        · exact hconnected.1 (Subscriber.trySend_id _ _)
        · exact hconnected.1 rfl
  | advance moved ok =>
    obtain ⟨rfl, hwriting, rfl⟩ := hends
    refine ⟨_, getElem?_advance hthread moved false, ?_, fun hrunning ↦ ?_⟩
    · rw [if_pos rfl]
      exact hfollows.advance
    · rw [if_pos rfl, Subscriber.phase_advance_of_writing hwriting] at hrunning
      cases hrunning

/-- The steps of a thread among those of a run. -/
def turns (index : ℕ) (ops : List StreamOp) : ℕ :=
  ops.countP fun
    | .advance moved _ => moved = index
    | _ => false

/-- The steps that a thread has left in `run_subscriber`. -/
def left (streams : AuditStreams) (index : ℕ) : ℕ :=
  match streams.threads[index]? with
  | some thread => if thread.phase = .running then thread.remaining else 0
  | none => 0

theorem left_eq (hthread : streams.threads[index]? = some thread) :
    streams.left index = if thread.phase = .running then thread.remaining else 0 := by
  rw [left, hthread]

/-- A stream stays closing when nothing happens to its thread, or the thread has left
`run_subscriber`. Assumes: the thread is not registered while it runs, and is not registered now
unless it was. -/
theorem closing_of_kept {due : List BoundedLogRecord} {later : AuditStreams} {next : Subscriber}
    (hthread : streams.threads[index]? = some thread) (hfollows : thread.Follows due)
    (hclosed : thread.phase = .running → ¬ streams.connected index thread)
    (hnext : later.threads[index]? = some next)
    (hkept : next = thread ∨ next.phase ≠ .running ∧ next.written = thread.written)
    (hget : later.subscribers.get thread.id = some index →
      streams.subscribers.get thread.id = some index) :
    later.Closing index due ∧ later.left index ≤ streams.left index := by
  rw [left_eq hthread, left_eq hnext]
  rcases hkept with rfl | ⟨hphase, hwritten⟩
  · refine ⟨⟨next, hnext, hfollows, fun hrunning hconnected ↦ ?_⟩, le_rfl⟩
    exact hclosed hrunning (connected_iff.mpr (hget (connected_iff.mp hconnected)))
  · refine ⟨⟨next, hnext, ⟨hwritten ▸ hfollows.written, ?_⟩, ?_⟩, ?_⟩
    · exact fun hrunning ↦ absurd hrunning hphase
    · exact fun hrunning ↦ absurd hrunning hphase
    · rw [if_neg hphase]
      exact Nat.zero_le _

/-- A closing stream stays so, and each step of its thread is one of those it has left. Assumes: the
stream is closing. -/
theorem Closing.step {due : List BoundedLogRecord} (hclosing : streams.Closing index due)
    (op : StreamOp) :
    (streams.step op).Closing index due ∧
      (streams.step op).left index ≤ streams.left index - turns index [op] := by
  obtain ⟨thread, hthread, hfollows, hclosed⟩ := hclosing
  cases op with
  | append message file =>
    refine closing_of_kept hthread hfollows hclosed (getElem?_append hthread file message) ?_
      fun hget ↦ ((get_append_iff hthread file message thread.id).mp hget).1
    split_ifs with hconnected
    · refine .inr ⟨fun hrunning ↦ ?_, Subscriber.trySend_written _ _⟩
      rw [Subscriber.trySend_phase] at hrunning
      exact hclosed hrunning hconnected
    · exact .inl rfl
  | subscribe id since confirmed =>
    rw [AuditStreams.step]
    rcases streams.auditSubscribe_cases id since confirmed with ⟨_, hstep⟩ | ⟨_, hstep⟩
    · rw [hstep]
      exact ⟨⟨thread, hthread, hfollows, hclosed⟩, le_rfl⟩
    · rw [hstep]
      refine closing_of_kept hthread hfollows hclosed (getElem?_subscribe hthread id _) ?_
        fun hget ↦ ((get_subscribe_iff hthread id thread.id _).mp hget).2
      split_ifs with hprevious
      · obtain ⟨previous, hsame, rfl⟩ := streams.owned id index hprevious
        obtain rfl := Option.some.inj (hthread.symm.trans hsame)
        refine .inr ⟨fun hrunning ↦ ?_, Subscriber.trySend_written _ _⟩
        rw [Subscriber.trySend_phase] at hrunning
        exact hclosed hrunning (connected_iff.mpr hprevious)
      · exact .inl rfl
  | advance moved ok =>
    have hnext := getElem?_advance hthread moved ok
    by_cases hmoved : moved = index
    · rw [if_pos hmoved] at hnext
      have hone : turns index [.advance moved ok] = 1 := by simp [turns, hmoved]
      refine ⟨⟨_, hnext, hfollows.advance, fun hrunning hconnected ↦ ?_⟩, ?_⟩
      · have hbefore := streams.get_of_get_onExit (connected_iff.mp hconnected)
        rw [Subscriber.advance_id] at hbefore
        exact hclosed (Subscriber.running_of_running_advance hrunning) (connected_iff.mpr hbefore)
      · rw [AuditStreams.step, left_eq hnext, left_eq hthread, hone]
        split_ifs with hafter hbefore
        · have hunconnected := Bool.eq_false_iff.mpr (hclosed hbefore)
          have hless := Subscriber.remaining_advance_lt hafter hunconnected
          omega
        · exact absurd (Subscriber.running_of_running_advance hafter) hbefore
        · exact Nat.zero_le _
        · exact Nat.zero_le _
    · rw [if_neg hmoved] at hnext
      have hnone : turns index [.advance moved ok] = 0 := by simp [turns, hmoved]
      rw [hnone]
      exact closing_of_kept hthread hfollows hclosed hnext (.inl rfl)
        fun hget ↦ streams.get_of_get_onExit hget

theorem turns_cons (index : ℕ) (op : StreamOp) (rest : List StreamOp) :
    turns index (op :: rest) = turns index [op] + turns index rest := by
  rw [turns, turns, turns, ← List.countP_append]
  rfl

/-- A closing stream stays so along a run, and its thread ends. Assumes: the stream is closing. -/
theorem Closing.after {due : List BoundedLogRecord} (hclosing : streams.Closing index due)
    (ops : List StreamOp) :
    (streams.after ops).Closing index due ∧
      (streams.after ops).left index ≤ streams.left index - turns index ops := by
  induction ops generalizing streams with
  | nil => exact ⟨hclosing, le_rfl⟩
  | cons op rest ih =>
    obtain ⟨hstep, hleft⟩ := hclosing.step op
    obtain ⟨hrest, hlast⟩ := ih hstep
    refine ⟨hrest, ?_⟩
    rw [turns_cons]
    have hcounted : (streams.after (op :: rest)).left index ≤
        (streams.step op).left index - turns index rest := hlast
    omega

end AuditStreams

/-- An audit stream has no gaps and no duplicates. Assumes: the id is valid. After every run from the
moment of the subscription, the thread has written a beginning of the records that memory had then
with a later sequence, followed by those appended since. When the channel is full at an append, the
id is subscribed to again or a write fails, the thread writes nothing that was not due before that
step, and has left `run_subscriber` after as many steps of its own as it has left. -/
theorem audit_stream_has_no_gaps (log : AuditLog) (before : List StreamOp) {id : String}
    (hvalid : AuditStreams.ValidSubscriber id) (since : UInt64) :
    let attached := (AuditStreams.start log).after before
    let streaming := attached.step (.subscribe id since true)
    let index := attached.threads.length
    let due := fun ops ↦ attached.log.since since ++ streaming.appends ops
    (∀ ops, ∃ thread, (streaming.after ops).threads[index]? = some thread ∧
      thread.written <+: due ops) ∧
    ∀ ops op rest thread, (streaming.after ops).threads[index]? = some thread →
      AuditStreams.Ends index thread op →
      ∃ stopped last, (streaming.after (ops ++ [op])).threads[index]? = some stopped ∧
        (streaming.after (ops ++ op :: rest)).threads[index]? = some last ∧
        last.written <+: due ops ∧
        (stopped.remaining ≤ AuditStreams.turns index rest → last.phase ≠ .running) := by
  intro attached streaming index due
  have hattached : streaming = attached.subscribe id (attached.log.since since) :=
    if_pos ⟨hvalid, rfl⟩
  have hstreaming : ∀ ops, (streaming.after ops).Streaming index (due ops) := by
    intro ops
    have hnew := attached.streaming_subscribe id (attached.log.since since)
    rw [← hattached] at hnew
    exact hnew.after ops
  refine ⟨fun ops ↦ ?_, fun ops op rest thread hthread hends ↦ ?_⟩
  · obtain ⟨thread, hthread, hfollows, _⟩ := hstreaming ops
    exact ⟨thread, hthread, hfollows.written⟩
  · have hclosing := (hstreaming ops).closing hthread hends
    have hstep : streaming.after (ops ++ [op]) = (streaming.after ops).step op := by
      simp [AuditStreams.after]
    have hrun : streaming.after (ops ++ op :: rest) =
        ((streaming.after ops).step op).after rest := by
      simp [AuditStreams.after]
    obtain ⟨⟨last, hlast, hfollows, _⟩, hleft⟩ := hclosing.after rest
    obtain ⟨stopped, hstopped, _⟩ := hclosing
    rw [hstep, hrun]
    refine ⟨stopped, last, hstopped, hlast, hfollows.written, fun hturns hrunning ↦ ?_⟩
    rw [AuditStreams.left_eq hlast, AuditStreams.left_eq hstopped, if_pos hrunning] at hleft
    have hpositive : 0 < last.remaining := Nat.succ_pos _
    split_ifs at hleft <;> omega

/-- An empty log in memory. -/
def emptyLog : AuditLog := .openLog none 4096 100 (by decide)

theorem ui_stream_has_no_gaps :
    let streaming := (AuditStreams.start emptyLog).step (.subscribe "ui" 0 true)
    AuditStreams.ValidSubscriber "ui" ∧
      ∀ ops, ∃ thread, (streaming.after ops).threads[0]? = some thread ∧
        thread.written <+: streaming.appends ops :=
  ⟨by decide, (audit_stream_has_no_gaps emptyLog [] (by decide) 0).1⟩

end InterFire
