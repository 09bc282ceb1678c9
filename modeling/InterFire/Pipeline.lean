import InterFire.Library.Channel
import InterFire.Verdicts

/-!
# From the connect to the verdict of its packet

The whole path of a connection: the kernel program writes an event to the ring buffer
(`crates/interfire-ebpf-programs`), the observation thread takes the records out of it and handles
their events (`poll_ring` of `observe_live.rs`), and the queue thread receives packets and returns a
verdict for each (`bind_and_serve` of `nfqueue_live.rs`). Requests answer and list prompts, and do
what they like to the other policy locks. A run is any list of such steps.

The ring buffer is first-in first-out, and the program drops an event that finds no room in it. A
record is decided in the step that takes it, as no other thread sees a record that was taken.
An error of the netlink socket ends the queue thread, by `recv()?` without a packet and by
`verdict(..)?` without an answer to its packet. These exits are no steps.

`events_observed_in_order` says which events reach the observation thread, and
`packets_answered_once` what the queue thread returns.
-/

set_option autoImplicit false
set_option relaxedAutoImplicit false

namespace InterFire

open Policy Run

/-- The ring buffer and the daemon's threads. The queue thread holds the payload of its packet. -/
structure Pipeline where
  ring : List (List UInt8)
  shared : Shared
  clock : Instant
  observer : Observer TcpConnectEvent
  server : Server (List UInt8)

inductive PipelineStep
  | connect (argument : Option (List UInt8)) (pidTgid : UInt64) (padding : UInt32) (hasRoom : Bool)
  | poll (clock : DecideClock) (reads : ProcReads)
  | insert (untilExpire untilStamp : Duration)
  | record
  | recv (payload : List UInt8)
  | attempt (elapsed : Duration)
  | answer (expireNow insertNow : Instant) (id : UInt64) (verdict : Verdict) (scope : RuleScope)
  | listPending (now : Instant)
  | others (rules : Mutex RuleSet) (processCache : Mutex ProcessCache) (dns : Mutex DnsCache)
    (recent : Mutex RecentConnects)

namespace Pipeline

/-- The event that a step writes to the ring buffer. -/
def emitted : PipelineStep → Option TcpConnectEvent
  | .connect argument pidTgid _ hasRoom =>
    match tryTcpConnect argument pidTgid hasRoom with
    | .ok event => event
    | .error _ => none
  | _ => none

/-- The record that a step writes, with whatever its padding holds. -/
def emittedRecord (_ : Pipeline) (op : PipelineStep) : Option (List UInt8) :=
  match op with
  | .connect _ _ padding _ =>
    (emitted op).map fun event ↦ event.toBytes (ByteOrder.toLittleEndian 4 padding.toNat)
  | _ => none

/-- The record that a step takes. -/
def polledRecord (system : Pipeline) : PipelineStep → Option (List UInt8)
  | .poll _ _ =>
    match system.observer with
    | .idle => system.ring.head?
    | _ => none
  | _ => none

/-- Take a record and decide its event; a record that is no event is skipped. -/
def poll (system : Pipeline) (clock : DecideClock) (reads : ProcReads) : Pipeline :=
  match system.observer, system.ring with
  | .idle, bytes :: rest =>
    match TcpConnectEvent.tryFromBytes bytes with
    | none => { system with ring := rest }
    | some event =>
      match Observe.decideSection clock reads event system.shared with
      | none => { system with ring := rest }
      | some (shared, decision) =>
        { system with ring := rest, shared, observer := .decided event decision }
  | _, _ => system

/-- Change the prompts under their lock. -/
def withPrompts (shared : Shared) (change : PromptQueue → PromptQueue) : Shared :=
  match shared.prompts.lock with
  | none => shared
  | some prompts => { shared with prompts := shared.prompts.store (change prompts) }

/-- The system after a step. A step that its thread is not ready for changes nothing. -/
def step (system : Pipeline) (op : PipelineStep) : Pipeline :=
  match op with
  | .connect _ _ _ _ => { system with ring := system.ring ++ (emittedRecord system op).toList }
  | .poll clock reads => system.poll clock reads
  | .insert untilExpire untilStamp =>
    match system.observer with
    | .decided event decision =>
      let expireNow := system.clock + untilExpire
      let stampNow := expireNow + untilStamp
      { system with
        shared := Observe.pendingSection expireNow stampNow decision system.shared
        clock := stampNow
        observer := .stored event decision }
    | _ => system
  | .record =>
    match system.observer with
    | .stored _ decision =>
      { system with
        shared := Observe.auditSection decision (Observe.statsSection decision system.shared)
        observer := .idle }
    | _ => system
  | .recv payload =>
    match system.server with
    | .idle => { system with server := .serving payload 0 }
    | _ => system
  | .attempt elapsed =>
    match system.server with
    | .serving payload attempt =>
      let now := system.clock + elapsed
      match lookupAttempt now payload attempt system.shared with
      | (shared, some _) => { system with shared, clock := now, server := .idle }
      | (shared, none) =>
        { system with shared, clock := now, server := .serving payload (attempt + 1) }
    | _ => system
  | .answer expireNow insertNow id verdict scope =>
    { system with
      shared := withPrompts system.shared fun prompts ↦
        (prompts.answer expireNow insertNow id verdict scope).1 }
  | .listPending now =>
    { system with shared := withPrompts system.shared fun prompts ↦ (prompts.listPending now).1 }
  | .others rules processCache dns recent =>
    { system with shared := { system.shared with rules, processCache, dns, recent } }

/-- The daemon with both threads idle and nothing in the ring buffer. -/
def start (locks : PolicyLocks) (table : PendingTable) (stats : Mutex StatsStore)
    (audit : Mutex (List String)) (clock : Instant) : Pipeline where
  ring := []
  shared := { toPolicyLocks := locks, pending := .new table, stats, audit }
  clock := clock
  observer := .idle
  server := .idle

/-! ### The ring buffer -/

@[simp] theorem ring_poll (system : Pipeline) (clock : DecideClock) (reads : ProcReads) :
    (system.poll clock reads).ring =
      match system.observer with
      | .idle => system.ring.tail
      | _ => system.ring := by
  unfold poll
  split
  · next bytes rest hobserver hring =>
    rw [hobserver, hring]
    split
    · rfl
    · split <;> rfl
  · next hnot =>
    cases hobserver : system.observer with
    | idle =>
      cases hring : system.ring with
      | nil => rfl
      | cons bytes rest => exact absurd hring (hnot bytes rest hobserver)
    | decided event decision => rfl
    | stored event decision => rfl

/-- A step that neither connects nor polls leaves the ring buffer alone. Assumes: it does
neither. -/
theorem ring_step_of_ne (system : Pipeline) {op : PipelineStep}
    (hconnect : ∀ argument pidTgid padding hasRoom, op ≠ .connect argument pidTgid padding hasRoom)
    (hpoll : ∀ clock reads, op ≠ .poll clock reads) : (system.step op).ring = system.ring := by
  cases op with
  | connect argument pidTgid padding hasRoom => exact absurd rfl (hconnect _ _ _ _)
  | poll clock reads => exact absurd rfl (hpoll clock reads)
  | insert untilExpire untilStamp => simp only [step]; split <;> rfl
  | record => simp only [step]; split <;> rfl
  | recv payload => simp only [step]; split <;> rfl
  | attempt elapsed => simp only [step]; split <;> [split; skip] <;> rfl
  | answer expireNow insertNow id verdict scope => rfl
  | listPending now => rfl
  | others rules processCache dns recent => rfl

/-- The ring buffer changes by the records that are written and taken. -/
theorem ring_step (system : Pipeline) (op : PipelineStep) :
    ∃ kept, system.ring = (polledRecord system op).toList ++ kept ∧
      (system.step op).ring = kept ++ (emittedRecord system op).toList := by
  have hkept : (system.step op).ring = system.ring → polledRecord system op = none →
      emittedRecord system op = none →
      ∃ kept, system.ring = (polledRecord system op).toList ++ kept ∧
        (system.step op).ring = kept ++ (emittedRecord system op).toList := by
    intro hring hpolled hemitted
    exact ⟨system.ring, by simp [hpolled], by simp [hring, hemitted]⟩
  cases op with
  | connect argument pidTgid padding hasRoom => exact ⟨system.ring, rfl, rfl⟩
  | poll clock reads =>
    cases hobserver : system.observer with
    | idle =>
      refine ⟨system.ring.tail, ?_, by simp [step, hobserver, emittedRecord]⟩
      cases hring : system.ring <;> simp [polledRecord, hobserver, hring]
    | decided event decision =>
      exact hkept (by simp [step, hobserver]) (by simp [polledRecord, hobserver]) rfl
    | stored event decision =>
      exact hkept (by simp [step, hobserver]) (by simp [polledRecord, hobserver]) rfl
  | insert untilExpire untilStamp => exact hkept (ring_step_of_ne system nofun nofun) rfl rfl
  | record => exact hkept (ring_step_of_ne system nofun nofun) rfl rfl
  | recv payload => exact hkept (ring_step_of_ne system nofun nofun) rfl rfl
  | attempt elapsed => exact hkept (ring_step_of_ne system nofun nofun) rfl rfl
  | answer expireNow insertNow id verdict scope => exact hkept rfl rfl rfl
  | listPending now => exact hkept rfl rfl rfl
  | others rules processCache dns recent => exact hkept rfl rfl rfl

/-- The ring buffer as a channel from the kernel program to the observation thread. -/
def ringChannel : Channel Pipeline PipelineStep (List UInt8) where
  step := step
  items := ring
  sent := emittedRecord
  received := polledRecord
  items_step := ring_step

/-- The record of a step reads as the event that the step writes. -/
theorem map_emittedRecord (system : Pipeline) (op : PipelineStep) :
    (emittedRecord system op).map TcpConnectEvent.tryFromBytes = (emitted op).map some := by
  cases op with
  | connect argument pidTgid padding hasRoom =>
    rw [emittedRecord, Option.map_map]
    refine congrArg (Option.map · _) (funext fun event ↦ ?_)
    exact TcpConnectEvent.tryFromBytes_toBytes event (ByteOrder.length_toLittleEndian 4 _)
  | _ => rfl

/-- A take of a record: its event is decided under the policy locks, or one of them is poisoned and
the thread goes on. Assumes: a record that is an event is taken. -/
theorem poll_of_event {system : Pipeline} {bytes : List UInt8} {event : TcpConnectEvent}
    (clock : DecideClock) (reads : ProcReads)
    (hpolled : polledRecord system (.poll clock reads) = some bytes)
    (hevent : TcpConnectEvent.tryFromBytes bytes = some event) :
    (system.shared.toPolicyLocks.lock = none ∧
        system.poll clock reads = { system with ring := system.ring.tail }) ∨
      ∃ policy, system.shared.toPolicyLocks.lock = some policy ∧
        system.poll clock reads =
          { system with
            ring := system.ring.tail
            shared :=
              { system.shared with
                toPolicyLocks :=
                  system.shared.toPolicyLocks.store (decide clock reads event policy).1 }
            observer := .decided event (decide clock reads event policy).2 } := by
  simp only [polledRecord] at hpolled
  split at hpolled
  · next hidle =>
    obtain ⟨rest, hring⟩ := List.head?_eq_some_iff.mp hpolled
    cases hlock : system.shared.toPolicyLocks.lock with
    | none =>
      refine .inl ⟨rfl, ?_⟩
      simp [poll, hidle, hring, hevent, Observe.decideSection, hlock]
    | some policy =>
      refine .inr ⟨policy, rfl, ?_⟩
      simp [poll, hidle, hring, hevent, Observe.decideSection, hlock]
  · cases hpolled

/-! ### The queue thread -/

/-- The packet that the queue thread is working on. -/
def underway (system : Pipeline) : List (List UInt8) :=
  match system.server with
  | .idle => []
  | .serving payload _ => [payload]

/-- The packet that a step receives from the queue. -/
def receivedPacket (system : Pipeline) : PipelineStep → Option (List UInt8)
  | .recv payload =>
    match system.server with
    | .idle => some payload
    | .serving _ _ => none
  | _ => none

/-- The packet that a step returns, with its verdict. -/
def answeredPacket (system : Pipeline) : PipelineStep → Option (List UInt8 × PacketVerdict)
  | .attempt elapsed =>
    match system.server with
    | .idle => none
    | .serving payload attempt =>
      (lookupAttempt (system.clock + elapsed) payload attempt system.shared).2.map (payload, ·)
  | _ => none

@[simp] theorem server_poll (system : Pipeline) (clock : DecideClock) (reads : ProcReads) :
    (system.poll clock reads).server = system.server := by
  unfold poll
  split
  · split
    · rfl
    · split <;> rfl
  · rfl

/-- A step that neither receives a packet nor asks for a verdict leaves the queue thread alone.
Assumes: it does neither. -/
theorem server_step_of_ne (system : Pipeline) {op : PipelineStep}
    (hrecv : ∀ payload, op ≠ .recv payload) (hattempt : ∀ elapsed, op ≠ .attempt elapsed) :
    (system.step op).server = system.server := by
  cases op with
  | recv payload => exact absurd rfl (hrecv payload)
  | attempt elapsed => exact absurd rfl (hattempt elapsed)
  | connect argument pidTgid padding hasRoom => rfl
  | poll clock reads => exact server_poll system clock reads
  | insert untilExpire untilStamp => simp only [step]; split <;> rfl
  | record => simp only [step]; split <;> rfl
  | answer expireNow insertNow id verdict scope => rfl
  | listPending now => rfl
  | others rules processCache dns recent => rfl

/-- The packet under way changes by the packets that are received and returned. -/
theorem underway_step (system : Pipeline) (op : PipelineStep) :
    ∃ kept, system.underway = ((answeredPacket system op).map Prod.fst).toList ++ kept ∧
      (system.step op).underway = kept ++ (receivedPacket system op).toList := by
  have hkept : (system.step op).server = system.server → (answeredPacket system op) = none →
      receivedPacket system op = none →
      ∃ kept, system.underway = ((answeredPacket system op).map Prod.fst).toList ++ kept ∧
        (system.step op).underway = kept ++ (receivedPacket system op).toList := by
    intro hserver hanswered hreceived
    refine ⟨system.underway, by simp [hanswered], ?_⟩
    simp [underway, hserver, hreceived]
  cases op with
  | recv payload =>
    cases hserver : system.server with
    | idle =>
      exact ⟨[], by simp [underway, hserver, answeredPacket],
        by simp [step, underway, hserver, receivedPacket]⟩
    | serving other attempt =>
      exact hkept (by simp [step, hserver]) rfl (by simp [receivedPacket, hserver])
  | attempt elapsed =>
    cases hserver : system.server with
    | idle => exact hkept (by simp [step, hserver]) (by simp [answeredPacket, hserver]) rfl
    | serving payload attempt =>
      cases hlookup : lookupAttempt (system.clock + elapsed) payload attempt system.shared with
      | mk shared verdict =>
        cases verdict with
        | some verdict =>
          exact ⟨[], by simp [underway, hserver, answeredPacket, hlookup],
            by simp [step, underway, hserver, receivedPacket, hlookup]⟩
        | none =>
          exact ⟨[payload], by simp [underway, hserver, answeredPacket, hlookup],
            by simp [step, underway, hserver, receivedPacket, hlookup]⟩
  | connect argument pidTgid padding hasRoom => exact hkept rfl rfl rfl
  | poll clock reads => exact hkept (server_poll system clock reads) rfl rfl
  | insert untilExpire untilStamp =>
    exact hkept (server_step_of_ne system nofun nofun) rfl rfl
  | record => exact hkept (server_step_of_ne system nofun nofun) rfl rfl
  | answer expireNow insertNow id verdict scope => exact hkept rfl rfl rfl
  | listPending now => exact hkept rfl rfl rfl
  | others rules processCache dns recent => exact hkept rfl rfl rfl

/-- The packet under way as a channel of one place. -/
def packetChannel : Channel Pipeline PipelineStep (List UInt8) where
  step := step
  items := underway
  sent := receivedPacket
  received system op := (answeredPacket system op).map Prod.fst
  items_step := underway_step

/-- A packet is accepted only by the entry of its destination. Assumes: a step returns it with an
accept. -/
theorem taken_of_answeredPacket {system : Pipeline} {op : PipelineStep} {payload : List UInt8}
    (haccept : answeredPacket system op = some (payload, .accept)) :
    ∃ elapsed attempt key pending, op = .attempt elapsed ∧
      system.server = .serving payload attempt ∧ tcpDestination payload = some key ∧
      system.shared.pending.lock = some pending ∧
      (pending.take (system.clock + elapsed) key).2 = some .accept := by
  cases op with
  | attempt elapsed =>
    cases hserver : system.server with
    | idle => simp [answeredPacket, hserver] at haccept
    | serving other attempt =>
      simp only [answeredPacket, hserver, Option.map_eq_some_iff, Prod.mk.injEq] at haccept
      obtain ⟨verdict, hverdict, rfl, rfl⟩ := haccept
      refine ⟨elapsed, attempt, ?_⟩
      simp only [lookupAttempt] at hverdict
      split at hverdict
      · cases hverdict
      · next key hkey =>
        split at hverdict
        · cases hverdict
        · next pending hlock =>
          refine ⟨key, pending, rfl, rfl, hkey, hlock, ?_⟩
          split at hverdict
          · next verdict htaken =>
            obtain rfl := Option.some.inj hverdict
            exact htaken
          · split_ifs at hverdict
            cases hverdict
  | _ => cases haccept

/-- The step asks for a verdict. -/
def isAttempt : PipelineStep → Bool
  | .attempt _ => true
  | _ => false

/-- A look that finds nothing is not the last one. Assumes: it finds nothing. -/
theorem lt_of_lookupAttempt_eq_none {now : Instant} {payload : List UInt8} {attempt : ℕ}
    {shared : Shared} (hnone : (lookupAttempt now payload attempt shared).2 = none) :
    attempt + 1 < lookupAttempts := by
  simp only [lookupAttempt] at hnone
  split at hnone
  · cases hnone
  · split at hnone
    · cases hnone
    · split at hnone
      · cases hnone
      · split_ifs at hnone with hlt
        exact hlt

/-- How a packet comes to be under way after a step: it is received by the step, or it was under way
before and is not returned. Assumes: the packet is under way after the step. -/
theorem serving_step_cases {system : Pipeline} {op : PipelineStep} {payload : List UInt8}
    {attempt : ℕ} (hserver : (system.step op).server = .serving payload attempt) :
    (receivedPacket system op = some payload ∧ attempt = 0) ∨
      ∃ before, system.server = .serving payload before ∧
        attempt = before + (if isAttempt op then 1 else 0) ∧
        (before < lookupAttempts → attempt < lookupAttempts) := by
  have hkept : isAttempt op = false → system.server = .serving payload attempt →
      ∃ before, system.server = .serving payload before ∧
        attempt = before + (if isAttempt op then 1 else 0) ∧
        (before < lookupAttempts → attempt < lookupAttempts) :=
    fun hop hbefore ↦ ⟨attempt, hbefore, by simp [hop], id⟩
  cases op with
  | recv received =>
    cases hbefore : system.server with
    | idle =>
      simp only [step, hbefore, Server.serving.injEq] at hserver
      obtain ⟨rfl, rfl⟩ := hserver
      exact .inl ⟨by simp [receivedPacket, hbefore], rfl⟩
    | serving other looks =>
      simp only [step, hbefore, Server.serving.injEq] at hserver
      obtain ⟨rfl, rfl⟩ := hserver
      exact .inr ⟨looks, rfl, rfl, id⟩
  | attempt elapsed =>
    cases hbefore : system.server with
    | idle =>
      simp only [step, hbefore] at hserver
      cases hserver
    | serving other looks =>
      cases hlookup : lookupAttempt (system.clock + elapsed) other looks system.shared with
      | mk shared verdict =>
        cases verdict with
        | some verdict =>
          simp only [step, hbefore, hlookup] at hserver
          cases hserver
        | none =>
          simp only [step, hbefore, hlookup, Server.serving.injEq] at hserver
          obtain ⟨rfl, rfl⟩ := hserver
          exact .inr ⟨looks, rfl, rfl, fun _ ↦ lt_of_lookupAttempt_eq_none (by rw [hlookup])⟩
  | connect argument pidTgid padding hasRoom => exact .inr (hkept rfl hserver)
  | poll clock reads => exact .inr (hkept rfl ((server_poll system clock reads).symm.trans hserver))
  | insert untilExpire untilStamp =>
    have hsame : (system.step (.insert untilExpire untilStamp)).server = system.server :=
      server_step_of_ne system nofun nofun
    exact .inr (hkept rfl (hsame.symm.trans hserver))
  | record =>
    have hsame : (system.step .record).server = system.server :=
      server_step_of_ne system nofun nofun
    exact .inr (hkept rfl (hsame.symm.trans hserver))
  | answer expireNow insertNow id verdict scope => exact .inr (hkept rfl hserver)
  | listPending now => exact .inr (hkept rfl hserver)
  | others rules processCache dns recent => exact .inr (hkept rfl hserver)

/-! ### Whole runs -/

section Runs

variable (begin : Pipeline) (ops : List PipelineStep)

/-- A packet under way was received, and as many looks were made since as the thread counts: fewer
than it makes at most. Assumes: no packet at the start, and the packet. -/
theorem exists_received_of_serving (hidle : begin.server = .idle) {index : ℕ}
    {payload : List UInt8} {attempt : ℕ}
    (hserver : (stateAt step begin ops index).server = .serving payload attempt) :
    ∃ received < index, RecordedAt step receivedPacket begin ops received payload ∧
      ((ops.take index).drop (received + 1)).countP isAttempt = attempt ∧
      attempt < lookupAttempts := by
  induction index generalizing attempt with
  | zero =>
    rw [stateAt_zero, hidle] at hserver
    cases hserver
  | succ index ih =>
    cases hop : ops[index]? with
    | none =>
      rw [stateAt_succ_of_none _ _ _ hop] at hserver
      obtain ⟨received, hlt, hrecorded, hcount, hbound⟩ := ih hserver
      refine ⟨received, by omega, hrecorded, ?_, hbound⟩
      rw [List.take_add_one, hop]
      simpa using hcount
    | some op =>
      rw [stateAt_succ _ _ _ hop] at hserver
      rcases serving_step_cases hserver with ⟨hreceived, rfl⟩ | ⟨before, hbefore, rfl, hbound⟩
      · refine ⟨index, by omega, ⟨op, hop, hreceived⟩, ?_, by decide⟩
        rw [List.drop_of_length_le (List.length_take_le _ _)]
        rfl
      · obtain ⟨received, hlt, hrecorded, hcount, hfew⟩ := ih hbefore
        refine ⟨received, by omega, hrecorded, ?_, hbound hfew⟩
        have hlength : index < ops.length := (List.getElem?_eq_some_iff.mp hop).1
        have hreach : received + 1 ≤ (ops.take index).length := by
          rw [List.length_take]
          omega
        rw [List.take_add_one, hop, List.drop_append_of_le_length hreach, List.countP_append,
          hcount]
        simp [List.countP_singleton]

end Runs

end Pipeline

section MainResults

open Pipeline

variable (locks : PolicyLocks) (table : PendingTable) (stats : Mutex StatsStore)
  (audit : Mutex (List String)) (clock : Instant)

/-- Which events the observation thread sees. In every run the events that were written to the ring
buffer are, in their order and each once, those of the records that were taken out and of those that
are still in it; and a taken record is decided, unless a policy lock is poisoned. -/
theorem events_observed_in_order (ops : List PipelineStep) (index : ℕ) :
    let begin := Pipeline.start locks table stats audit clock
    let system := stateAt step begin ops index
    (log step (fun _ op ↦ emitted op) begin ops index).map some =
        (log step polledRecord begin ops index ++ system.ring).map TcpConnectEvent.tryFromBytes ∧
      ∀ bytes, RecordedAt step polledRecord begin ops index bytes →
        ∃ event, TcpConnectEvent.tryFromBytes bytes = some event ∧
          ∀ policy, system.shared.toPolicyLocks.lock = some policy →
            ∃ clock reads, ops[index]? = some (.poll clock reads) ∧
              (stateAt step begin ops (index + 1)).observer =
                .decided event (decide clock reads event policy).2 := by
  intro begin system
  have hrecords := ringChannel.conservation begin ops index
  have hemitted : (log step emittedRecord begin ops index).map TcpConnectEvent.tryFromBytes =
      (log step (fun _ op ↦ emitted op) begin ops index).map some := by
    simp only [← log_map, map_emittedRecord]
  refine ⟨?_, fun bytes hpolled ↦ ?_⟩
  · rw [← hemitted]
    exact congrArg _ hrecords
  -- The record is one of those that were written, so it is an event.
  obtain ⟨sender, _, hsender⟩ := ringChannel.sender_strictMono begin ops rfl
  obtain ⟨_, op, _, hsent⟩ := hsender index bytes hpolled
  have hread := map_emittedRecord (stateAt step begin ops (sender index)) op
  obtain ⟨event, _, hevent⟩ : ∃ event, emitted op = some event ∧
      TcpConnectEvent.tryFromBytes bytes = some event := by
    rw [show emittedRecord _ op = some bytes from hsent] at hread
    cases hemit : emitted op with
    | none => simp [hemit] at hread
    | some event => exact ⟨event, rfl, by simpa [hemit] using hread⟩
  refine ⟨event, hevent, fun policy hlock ↦ ?_⟩
  obtain ⟨poll, hpoll, hrecord⟩ := hpolled
  cases poll with
  | poll clock reads =>
    refine ⟨clock, reads, hpoll, ?_⟩
    rw [stateAt_succ _ _ _ hpoll]
    rcases poll_of_event clock reads hrecord hevent with ⟨hnone, _⟩ | ⟨found, hfound, hstep⟩
    · rw [hnone] at hlock
      cases hlock
    · obtain rfl := Option.some.inj (hfound.symm.trans hlock)
      exact congrArg Pipeline.observer hstep
  | _ => cases hrecord

/-- What the queue thread returns. In every run the packets it received are, in their order, those
it returned with a verdict, each once, and the one it is working on, which it has asked for fewer
than fifty times; and it accepts a packet only by an entry that it takes for its destination. -/
theorem packets_answered_once (ops : List PipelineStep) (index : ℕ) :
    let begin := Pipeline.start locks table stats audit clock
    let system := stateAt step begin ops index
    log step receivedPacket begin ops index =
        (log step answeredPacket begin ops index).map Prod.fst ++ system.underway ∧
      (∀ payload attempt, system.server = .serving payload attempt →
        ∃ received < index, RecordedAt step receivedPacket begin ops received payload ∧
          ((ops.take index).drop (received + 1)).countP isAttempt = attempt ∧ attempt < 50) ∧
      ∀ payload, RecordedAt step answeredPacket begin ops index (payload, .accept) →
        ∃ elapsed key pending, ops[index]? = some (.attempt elapsed) ∧
          tcpDestination payload = some key ∧ system.shared.pending.lock = some pending ∧
          (pending.take (system.clock + elapsed) key).2 = some .accept := by
  intro begin system
  refine ⟨?_, fun payload attempt hserver ↦ ?_, fun payload hanswered ↦ ?_⟩
  · have hconserved := packetChannel.conservation begin ops index
    rw [← log_map]
    exact hconserved
  · exact exists_received_of_serving begin ops rfl hserver
  · obtain ⟨op, hop, haccept⟩ := hanswered
    obtain ⟨elapsed, _, key, pending, rfl, _, hkey, hlock, htaken⟩ :=
      taken_of_answeredPacket haccept
    exact ⟨elapsed, key, pending, hop, hkey, hlock, htaken⟩

end MainResults

end InterFire
