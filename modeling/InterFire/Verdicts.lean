import InterFire.Library.Run
import InterFire.Observe

/-!
# Joining packets with decisions

Two threads of the daemon meet in the pending table. The observation thread handles one event after
another (`crates/interfire-daemon/src/observe.rs`), and the queue thread answers one packet after
another (`lookup_verdict` of `nfqueue_live.rs`), asking the table up to fifty times. A
`VerdictSystem` is the shared state with the position of both threads, a `VerdictStep` is one
critical section of one thread, or anything an IPC handler does to the policy locks. A run is any
list of such steps, so every interleaving is one.

The clock of the pending table only advances: the steps that read it say how much time has passed.

The table is keyed by destination, so an event overwrites the verdict of an earlier event with the
same destination and a packet takes whatever is stored: `crossed_verdicts` is a run in which a
packet gets the verdict of another process. `packet_takes_latest_verdict` says what every packet
gets.
-/

set_option autoImplicit false
set_option relaxedAutoImplicit false

namespace InterFire

open Policy Run

/-- A connection: the event of its connect and its first packet, which carry one destination. -/
structure Flow where
  event : TcpConnectEvent
  payload : List UInt8
  destination : tcpDestination payload = some (destKey event)

/-- Where the observation thread is in its handler. -/
inductive Observer (ι : Type)
  | idle
  | decided (connection : ι) (decision : Decision)
  | stored (connection : ι) (decision : Decision)
  deriving DecidableEq

/-- Where the queue thread is: waiting for a packet, or about to ask for the verdict of a
connection's packet after a number of failed attempts. -/
inductive Server (ι : Type)
  | idle
  | serving (connection : ι) (attempt : ℕ)

structure VerdictSystem (ι : Type) where
  shared : Shared
  clock : Instant
  observer : Observer ι
  server : Server ι

/-- One step of one thread. -/
inductive VerdictStep (ι : Type)
  | decide (connection : ι) (clock : DecideClock) (reads : ProcReads)
  | insert (untilExpire untilStamp : Duration)
  | record
  | recv (connection : ι)
  | attempt (elapsed : Duration)
  | ipc (locks : PolicyLocks)

/-- The number of times the queue thread asks for a verdict. -/
def lookupAttempts : ℕ := 50

/-- One attempt of `lookup_verdict`: the verdict it returns, or none when it sleeps and tries
again. -/
def lookupAttempt (now : Instant) (payload : List UInt8) (attempt : ℕ) (shared : Shared) :
    Shared × Option PacketVerdict :=
  match tcpDestination payload with
  | none => (shared, some .drop)
  | some key =>
    match shared.pending.lock with
    | none => (shared, some .drop)
    | some pending =>
      let (pending, taken) := pending.take now key
      let shared := { shared with pending := shared.pending.store pending }
      match taken with
      | some verdict => (shared, some verdict)
      | none => (shared, if attempt + 1 < lookupAttempts then none else some .drop)

namespace VerdictSystem

variable {ι : Type} (flows : ι → Flow)

/-- The system after a step. A step that its thread is not ready for changes nothing. -/
def step (system : VerdictSystem ι) : VerdictStep ι → VerdictSystem ι
  | .decide connection clock reads =>
    match system.observer with
    | .idle =>
      match Observe.decideSection clock reads (flows connection).event system.shared with
      | none => system
      | some (shared, decision) => { system with shared, observer := .decided connection decision }
    | _ => system
  | .insert untilExpire untilStamp =>
    match system.observer with
    | .decided connection decision =>
      let expireNow := system.clock + untilExpire
      let stampNow := expireNow + untilStamp
      { system with
        shared := Observe.pendingSection expireNow stampNow decision system.shared
        clock := stampNow
        observer := .stored connection decision }
    | _ => system
  | .record =>
    match system.observer with
    | .stored _ decision =>
      { system with
        shared := Observe.auditSection decision (Observe.statsSection decision system.shared)
        observer := .idle }
    | _ => system
  | .recv connection =>
    match system.server with
    | .idle => { system with server := .serving connection 0 }
    | _ => system
  | .attempt elapsed =>
    match system.server with
    | .serving connection attempt =>
      let now := system.clock + elapsed
      match lookupAttempt now (flows connection).payload attempt system.shared with
      | (shared, some _) => { system with shared, clock := now, server := .idle }
      | (shared, none) =>
        { system with shared, clock := now, server := .serving connection (attempt + 1) }
    | _ => system
  | .ipc locks => { system with shared := { system.shared with toPolicyLocks := locks } }

/-- The verdict that an attempt returns for the packet the queue thread is serving. -/
def returned (system : VerdictSystem ι) (elapsed : Duration) : Option PacketVerdict :=
  match system.server with
  | .serving connection attempt =>
    (lookupAttempt (system.clock + elapsed) (flows connection).payload attempt system.shared).2
  | .idle => none

/-- The step processes an event or a packet with the given destination. -/
def Touches (system : VerdictSystem ι) (key : DestKey) : VerdictStep ι → Prop
  | .insert _ _ => ∃ connection decision, system.observer = .decided connection decision ∧
      decision.key = key
  | .attempt _ => ∃ connection attempt, system.server = .serving connection attempt ∧
      tcpDestination (flows connection).payload = some key
  | _ => False

/-- The three sections of the observation thread in a row are the handler. Assumes: the thread is
idle. -/
theorem steps_eq_handleEvent (system : VerdictSystem ι) (hidle : system.observer = .idle)
    (connection : ι) (clock : DecideClock) (reads : ProcReads)
    (untilExpire untilStamp : Duration) :
    ([.decide connection clock reads, .insert untilExpire untilStamp, .record].foldl
        (step flows) system).shared =
      Observe.handleEvent clock (system.clock + untilExpire)
        (system.clock + untilExpire + untilStamp) reads (flows connection).event system.shared := by
  cases hdecide : Observe.decideSection clock reads (flows connection).event system.shared with
  | none => simp [step, Observe.handleEvent, hidle, hdecide]
  | some result => simp [step, Observe.handleEvent, hidle, hdecide]

/-! ### One step and one entry -/

/-- The clock does not go back. -/
theorem clock_le_step (system : VerdictSystem ι) (op : VerdictStep ι) :
    system.clock ≤ (step flows system op).clock := by
  cases op with
  | decide connection clock reads => simp only [step]; split <;> [split; skip] <;> exact le_rfl
  | insert untilExpire untilStamp =>
    simp only [step]
    split
    · exact (Nat.le_add_right _ _).trans (Nat.le_add_right _ _)
    · exact le_rfl
  | record => simp only [step]; split <;> exact le_rfl
  | recv connection => simp only [step]; split <;> exact le_rfl
  | attempt elapsed =>
    simp only [step]
    split
    · split <;> exact Nat.le_add_right _ _
    · exact le_rfl
  | ipc locks => exact le_rfl

/-- A decision that the observation thread holds after a step was held before it or was made by
it. Assumes: the thread holds the decision afterwards. -/
theorem observer_step_cases (system : VerdictSystem ι) (op : VerdictStep ι) {connection : ι}
    {decision : Decision} (hobserver : (step flows system op).observer =
      .decided connection decision) :
    system.observer = .decided connection decision ∨
      ∃ clock reads policy, op = .decide connection clock reads ∧
        system.shared.toPolicyLocks.lock = some policy ∧
        (Policy.decide clock reads (flows connection).event policy).2 = decision := by
  cases op with
  | decide other clock reads =>
    simp only [step] at hobserver
    split at hobserver
    · next hidle =>
      split at hobserver
      · exact .inl hobserver
      · next shared made hdecide =>
        obtain ⟨rfl, rfl⟩ := Observer.decided.inj hobserver
        simp only [Observe.decideSection, Option.bind_eq_bind, Option.bind_eq_some_iff,
          Option.pure_def, Option.some.injEq, Prod.mk.injEq] at hdecide
        obtain ⟨policy, hlock, _, hmade⟩ := hdecide
        exact .inr ⟨clock, reads, policy, rfl, hlock, hmade⟩
    · exact .inl hobserver
  | insert untilExpire untilStamp =>
    simp only [step] at hobserver
    split at hobserver
    · cases hobserver
    · exact .inl hobserver
  | record =>
    simp only [step] at hobserver
    split at hobserver
    · cases hobserver
    · exact .inl hobserver
  | recv other =>
    simp only [step] at hobserver
    split at hobserver <;> exact .inl hobserver
  | attempt elapsed =>
    simp only [step] at hobserver
    split at hobserver
    · split at hobserver <;> exact .inl hobserver
    · exact .inl hobserver
  | ipc locks => exact .inl hobserver

/-- The pending table of one attempt. Assumes: the packet has the key and the lock is not
poisoned. -/
theorem pending_lookupAttempt {now : Instant} {payload : List UInt8} {attempt : ℕ}
    {shared : Shared} {key : DestKey} (hkey : tcpDestination payload = some key)
    (hclean : shared.pending.poisoned = false) :
    (lookupAttempt now payload attempt shared).1.pending =
      shared.pending.store (shared.pending.value.take now key).1 := by
  simp only [lookupAttempt, hkey, Mutex.lock_eq hclean]
  split <;> rfl

/-- What a step can do to the pending table: nothing, store the verdict of the decided event, or
take the verdict of the served packet. Assumes: the lock is not poisoned. -/
theorem pending_step_cases (system : VerdictSystem ι) (op : VerdictStep ι)
    (hclean : system.shared.pending.poisoned = false) :
    (step flows system op).shared.pending = system.shared.pending ∨
      (∃ untilExpire untilStamp connection decision, op = .insert untilExpire untilStamp ∧
        system.observer = .decided connection decision ∧
        (step flows system op).clock = system.clock + untilExpire + untilStamp ∧
        (step flows system op).shared.pending = system.shared.pending.store
          (system.shared.pending.value.insert (system.clock + untilExpire)
            (system.clock + untilExpire + untilStamp) decision.key decision.packetVerdict)) ∨
      ∃ elapsed connection attempt, op = .attempt elapsed ∧
        system.server = .serving connection attempt ∧
        (step flows system op).clock = system.clock + elapsed ∧
        (step flows system op).shared.pending = system.shared.pending.store
          (system.shared.pending.value.take (system.clock + elapsed)
            (destKey (flows connection).event)).1 := by
  cases op with
  | decide connection clock reads =>
    refine .inl ?_
    simp only [step]
    split
    · split
      · rfl
      · next hdecide => exact Observe.pending_decideSection hdecide
    · rfl
  | insert untilExpire untilStamp =>
    simp only [step]
    split
    · next connection decision hobserver =>
      exact .inr (.inl ⟨untilExpire, untilStamp, connection, decision, rfl, hobserver, rfl,
        Observe.pending_pendingSection _ _ decision hclean⟩)
    · exact .inl rfl
  | record =>
    refine .inl ?_
    simp only [step]
    split
    · simp only [Observe.pending_auditSection, Observe.pending_statsSection]
    · rfl
  | recv connection =>
    refine .inl ?_
    simp only [step]
    split <;> rfl
  | attempt elapsed =>
    simp only [step]
    split
    · next connection attempt hserver =>
      have htable : (lookupAttempt (system.clock + elapsed) (flows connection).payload attempt
          system.shared).1.pending = _ :=
        pending_lookupAttempt (flows connection).destination hclean
      refine .inr (.inr ⟨elapsed, connection, attempt, rfl, hserver, ?_⟩)
      split <;> next heq => rw [heq] at htable; exact ⟨rfl, htable⟩
    · exact .inl rfl
  | ipc locks => exact .inl rfl

/-- The pending table holds a verdict for a key. -/
def Holds (key : DestKey) (entry : PendingEntry) (ttl : Duration) (system : VerdictSystem ι) :
    Prop :=
  system.shared.pending.poisoned = false ∧ system.shared.pending.value.ttl = ttl ∧
    system.shared.pending.value.entries.get key = some entry

/-- A step that does not touch the destination keeps its fresh entry. Assumes: the entry is there,
the table has room, and the entry is still fresh when the step ends. -/
theorem holds_step {key : DestKey} {entry : PendingEntry} {ttl : Duration}
    {system : VerdictSystem ι} {op : VerdictStep ι} (hholds : Holds key entry ttl system)
    (hroom : system.shared.pending.value.entries.len < system.shared.pending.value.capacity)
    (huntouched : ¬ Touches flows system key op)
    (hfresh : (step flows system op).clock - entry.insertedAt ≤ ttl) :
    Holds key entry ttl (step flows system op) := by
  obtain ⟨hclean, rfl, hget⟩ := hholds
  rcases pending_step_cases flows system op hclean with hsame |
    ⟨untilExpire, untilStamp, connection, decision, rfl, hobserver, hclock, hpending⟩ |
    ⟨elapsed, connection, attempt, rfl, hserver, hclock, hpending⟩
  · rw [Holds, hsame]
    exact ⟨hclean, rfl, hget⟩
  · have hne : key ≠ decision.key := fun hkey ↦
      huntouched ⟨connection, decision, hobserver, hkey.symm⟩
    have hearly : system.clock + untilExpire - entry.insertedAt ≤
        system.shared.pending.value.ttl := by
      rw [hclock] at hfresh
      exact (Nat.sub_le_sub_right (Nat.le_add_right _ _) _).trans hfresh
    rw [Holds, hpending]
    exact ⟨hclean, PendingTable.ttl_insert .., PendingTable.get_insert_of_ne _ hne _ _ hget hearly
      hroom⟩
  · have hne : key ≠ destKey (flows connection).event := by
      rintro rfl
      exact huntouched ⟨connection, attempt, hserver, (flows connection).destination⟩
    rw [hclock] at hfresh
    rw [Holds, hpending]
    exact ⟨hclean, PendingTable.ttl_take .., PendingTable.get_take_of_ne _ hne hget hfresh⟩

/-- A served packet gets the fresh entry of its destination. Assumes: the entry is there and
fresh. -/
theorem returned_of_holds {connection : ι} {attempt : ℕ} {elapsed : Duration}
    {entry : PendingEntry} {ttl : Duration} {system : VerdictSystem ι}
    (hserver : system.server = .serving connection attempt)
    (hholds : Holds (destKey (flows connection).event) entry ttl system)
    (hfresh : system.clock + elapsed - entry.insertedAt ≤ ttl) :
    returned flows system elapsed = some entry.verdict := by
  obtain ⟨hclean, rfl, hget⟩ := hholds
  have htaken := PendingTable.take_of_fresh _ hget hfresh
  simp only [returned, hserver, lookupAttempt, (flows connection).destination,
    Mutex.lock_eq hclean, htaken]

end VerdictSystem

/-! ### Whole runs -/

section Runs

open VerdictSystem

variable {ι : Type} (flows : ι → Flow) (start : VerdictSystem ι) (steps : List (VerdictStep ι))

/-- The system before the step at an index of a run. -/
def systemAt (index : ℕ) : VerdictSystem ι := stateAt (step flows) start steps index

/-- The step at an index decides the event of a connection. -/
def DecidedAt (index : ℕ) (connection : ι) (decision : Decision) : Prop :=
  ∃ clock reads policy, steps[index]? = some (.decide connection clock reads) ∧
    (systemAt flows start steps index).shared.toPolicyLocks.lock = some policy ∧
    (Policy.decide clock reads (flows connection).event policy).2 = decision

/-- The step at an index stores the verdict of a decided event, with the stamp of the entry. -/
def StoredAt (index : ℕ) (connection : ι) (decision : Decision) (stamp : Instant) : Prop :=
  ∃ untilExpire untilStamp, steps[index]? = some (.insert untilExpire untilStamp) ∧
    (systemAt flows start steps index).observer = .decided connection decision ∧
    stamp = (systemAt flows start steps index).clock + untilExpire + untilStamp

/-- The step at an index asks for the verdict of a connection's packet, at an instant, and gets an
answer. -/
def ServedAt (index : ℕ) (connection : ι) (now : Instant) (answer : Option PacketVerdict) : Prop :=
  ∃ elapsed attempt, steps[index]? = some (.attempt elapsed) ∧
    (systemAt flows start steps index).server = .serving connection attempt ∧
    now = (systemAt flows start steps index).clock + elapsed ∧
    answer = returned flows (systemAt flows start steps index) elapsed

/-- The table has room for a new key before every step. -/
def NeverFull : Prop :=
  ∀ index < steps.length,
    (systemAt flows start steps index).shared.pending.value.entries.len <
      (systemAt flows start steps index).shared.pending.value.capacity

theorem systemAt_succ {index : ℕ} {op : VerdictStep ι} (hop : steps[index]? = some op) :
    systemAt flows start steps (index + 1) = step flows (systemAt flows start steps index) op :=
  stateAt_succ (step flows) start steps hop

theorem clock_mono {first last : ℕ} (hle : first ≤ last) :
    (systemAt flows start steps first).clock ≤ (systemAt flows start steps last).clock := by
  refine stateAt_induction (step flows) start steps
    (fun system ↦ (systemAt flows start steps first).clock ≤ system.clock) le_rfl
    (fun index _ _ op _ hbefore ↦ ?_) last hle le_rfl
  exact hbefore.trans (clock_le_step flows _ op)

/-- The observation thread holds a decision only after deciding that event. Assumes: it is idle at
the start. -/
theorem exists_decidedAt (hidle : start.observer = .idle) {index : ℕ} {connection : ι}
    {decision : Decision}
    (hobserver : (systemAt flows start steps index).observer = .decided connection decision) :
    ∃ decided < index, DecidedAt flows start steps decided connection decision := by
  induction index with
  | zero => exact absurd (hidle.symm.trans hobserver) (by simp)
  | succ index ih =>
    have hearlier : (systemAt flows start steps index).observer = .decided connection decision →
        ∃ decided < index + 1, DecidedAt flows start steps decided connection decision := by
      intro hbefore
      obtain ⟨decided, hlt, hdecided⟩ := ih hbefore
      exact ⟨decided, by omega, hdecided⟩
    cases hop : steps[index]? with
    | none =>
      rw [systemAt, stateAt_succ_of_none (step flows) start steps hop] at hobserver
      exact hearlier hobserver
    | some op =>
      rw [systemAt_succ flows start steps hop] at hobserver
      rcases observer_step_cases flows _ op hobserver with hbefore |
        ⟨clock, reads, policy, rfl, hlock, hdecision⟩
      · exact hearlier hbefore
      · exact ⟨index, by omega, clock, reads, policy, hop, hlock, hdecision⟩

/-- The lock of the pending table stays clean and the lifetime of its entries does not change.
Assumes: the lock is clean at the start. -/
theorem clean_systemAt (hclean : start.shared.pending.poisoned = false) (index : ℕ) :
    (systemAt flows start steps index).shared.pending.poisoned = false ∧
      (systemAt flows start steps index).shared.pending.value.ttl =
        start.shared.pending.value.ttl := by
  refine stateAt_invariant (step flows) start steps (fun system ↦
    system.shared.pending.poisoned = false ∧
      system.shared.pending.value.ttl = start.shared.pending.value.ttl) ⟨hclean, rfl⟩
    (fun system op hbefore ↦ ?_) index
  obtain ⟨hbefore, httl⟩ := hbefore
  rcases pending_step_cases flows system op hbefore with hsame |
    ⟨_, _, _, _, _, _, _, hpending⟩ | ⟨_, _, _, _, _, _, hpending⟩
  · exact hsame ▸ ⟨hbefore, httl⟩
  · exact hpending ▸ ⟨hbefore, (PendingTable.ttl_insert ..).trans httl⟩
  · exact hpending ▸ ⟨hbefore, (PendingTable.ttl_take ..).trans httl⟩

/-- After a decision is stored, the table holds it. Assumes: the decision is stored at the index
and the lock is clean. -/
theorem holds_of_storedAt (hidle : start.observer = .idle)
    (hclean : start.shared.pending.poisoned = false) {index : ℕ} {connection : ι}
    {decision : Decision} {stamp : Instant}
    (hstored : StoredAt flows start steps index connection decision stamp) :
    Holds decision.key ⟨decision.packetVerdict, stamp⟩ start.shared.pending.value.ttl
        (systemAt flows start steps (index + 1)) ∧
      decision.key = destKey (flows connection).event ∧
      (systemAt flows start steps (index + 1)).clock = stamp := by
  obtain ⟨untilExpire, untilStamp, hop, hobserver, rfl⟩ := hstored
  obtain ⟨hcleanAt, httl⟩ := clean_systemAt flows start steps hclean index
  obtain ⟨decided, _, clock, reads, policy, _, _, rfl⟩ :=
    exists_decidedAt flows start steps hidle hobserver
  rw [systemAt_succ flows start steps hop]
  simp only [step, hobserver, Holds, Observe.pending_pendingSection _ _ _ hcleanAt,
    Mutex.poisoned_store, Mutex.value_store, PendingTable.ttl_insert,
    PendingTable.get_insert_self, httl, hcleanAt, key_decide, and_self]

end Runs

/-- The daemon with both threads idle and a usable pending table. -/
def VerdictSystem.idle {ι : Type} (locks : PolicyLocks) (table : PendingTable)
    (stats : Mutex StatsStore) (audit : Mutex (List String)) (clock : Instant) : VerdictSystem ι :=
  { shared := { toPolicyLocks := locks, pending := .new table, stats, audit }
    clock, observer := .idle, server := .idle }

/-- What a packet gets. In every interleaving in which the table is never full, a packet that is
served within the lifetime gets the verdict that was decided for the latest event with its
destination, when no other event or packet with that destination is processed in between. For the
event of the packet's own connection this is its own verdict. Assumes: the table is never full. -/
theorem packet_takes_latest_verdict {ι : Type} (flows : ι → Flow) (locks : PolicyLocks)
    (table : PendingTable) (stats : Mutex StatsStore) (audit : Mutex (List String))
    (clock : Instant) (steps : List (VerdictStep ι))
    (hroom : NeverFull flows (.idle locks table stats audit clock) steps) :
    let start := VerdictSystem.idle locks table stats audit clock
    ∀ stored served latest connection decision stamp now answer, stored < served →
      StoredAt flows start steps stored latest decision stamp →
      ServedAt flows start steps served connection now answer →
      destKey (flows latest).event = destKey (flows connection).event →
      now - stamp ≤ table.ttl →
      (∀ between op, stored < between → between < served → steps[between]? = some op →
        ¬ VerdictSystem.Touches flows (systemAt flows start steps between)
          (destKey (flows connection).event) op) →
      answer = some decision.packetVerdict ∧
        ∃ decided < stored, DecidedAt flows start steps decided latest decision := by
  intro start stored served latest connection decision stamp now answer hlt hstored hserved hkey
    hfresh huntouched
  have hdecided : ∃ decided < stored, DecidedAt flows start steps decided latest decision := by
    obtain ⟨_, _, _, hobserver, _⟩ := hstored
    exact exists_decidedAt flows start steps rfl hobserver
  refine ⟨?_, hdecided⟩
  obtain ⟨hholds, hdest, hstamp⟩ := holds_of_storedAt flows start steps rfl rfl hstored
  obtain ⟨elapsed, attempt, hop, hserver, rfl, rfl⟩ := hserved
  rw [hdest, hkey] at hholds
  -- The entry survives every step up to the packet: each leaves the destination alone and ends
  -- before the packet is served.
  have hkept := stateAt_induction (VerdictSystem.step flows) start steps
    (VerdictSystem.Holds (destKey (flows connection).event) ⟨decision.packetVerdict, stamp⟩
      table.ttl) hholds
    (fun index hfirst hlast op hopAt hbefore ↦ by
      refine VerdictSystem.holds_step flows hbefore
        (hroom index (List.getElem?_eq_some_iff.mp hopAt).1)
        (huntouched index op hfirst hlast hopAt) ?_
      have hclock : (VerdictSystem.step flows (systemAt flows start steps index) op).clock ≤
          (systemAt flows start steps served).clock := by
        rw [← systemAt_succ flows start steps hopAt]
        exact clock_mono flows start steps hlast
      exact (Nat.sub_le_sub_right (hclock.trans (Nat.le_add_right _ elapsed)) _).trans hfresh)
    served hlt le_rfl
  exact VerdictSystem.returned_of_holds flows hserver hkept hfresh

/-! ### Two processes and one destination -/

/-- The files of a process. -/
def procReads (stat exe : String) : ProcReads :=
  { stat := .ok stat, exe := .ok exe, cmdline := .ok exe, status := .ok "Uid:\t1000",
    cgroup := .ok "0::/" }

/-- A packet from a source port to port 443 of 1.2.3.4. -/
def synPacket (sourcePort : UInt8) : List UInt8 :=
  [0x45, 0, 0, 40, 0, 0, 0, 0, 64, 6, 0, 0, 10, 0, 0, 1, 1, 2, 3, 4, 200, sourcePort, 1, 187]

/-- Two connections to port 443 of 1.2.3.4: `false` of an unknown program, `true` of a program that
a rule allows. -/
def crossedFlows : Bool → Flow
  | false => ⟨⟨7, 0, 0x01020304, 443, 0⟩, synPacket 1, by decide⟩
  | true => ⟨⟨8, 0, 0x01020304, 443, 0⟩, synPacket 2, by decide⟩

def crossedReads (connection : Bool) : ProcReads :=
  if connection then procReads "8 (apt) S 1 8 8 0 0 0 0 0 0 0 0 0 0 0 20 0 1 0 99" "/usr/bin/apt"
  else procReads "7 (curl) S 1 7 7 0 0 0 0 0 0 0 0 0 0 0 20 0 1 0 98" "/usr/bin/curl"

def aptRule : Rule :=
  { id := 1, executable := "/usr/bin/apt", protocol := none, direction := none, address := none,
    hostname := none, port := none, verdict := .allow, scope := .permanent }

/-- An idle daemon with one rule and an empty pending table. -/
def crossedStart : VerdictSystem Bool :=
  .idle
    { rules := .new ⟨[aptRule]⟩
      processCache := .new (.new 8 (by decide))
      prompts := .new (.new 8 (by decide) 60)
      dns := .new (.new 8 (by decide) 60)
      recent := .new (.new 8 8 (by decide) (by decide)) }
    (.new 8 (by decide) 60) (.new .new) (.new []) 0

/-- Both connections are decided, then the packet of the first one is served. -/
def crossedRun : List (VerdictStep Bool) :=
  [.decide false (.at 0) (crossedReads false), .insert 1 0, .record,
    .decide true (.at 1) (crossedReads true), .insert 1 0, .record,
    .recv false, .attempt 1]

/-- The decision for the unknown program: a prompt, so the packet is to be dropped. -/
def crossedDecision : Decision :=
  { key := ⟨0x01020304, 443⟩, packetVerdict := .drop, attributed := true, promptId := some 1
    stats := some ⟨"/usr/bin/curl", "4.3.2.1", "4.3.2.1", 443, 1000, "prompt"⟩ }

/-- Every served packet gets the verdict that was decided for its own connection. -/
def OwnVerdicts {ι : Type} (flows : ι → Flow) (start : VerdictSystem ι)
    (steps : List (VerdictStep ι)) : Prop :=
  ∀ stored served connection decision stamp now verdict, stored < served →
    StoredAt flows start steps stored connection decision stamp →
    ServedAt flows start steps served connection now (some verdict) →
    now - stamp ≤ start.shared.pending.value.ttl → verdict = decision.packetVerdict

/-- The dropped connection is accepted with the verdict of the other process. -/
theorem crossed_verdicts :
    NeverFull crossedFlows crossedStart crossedRun ∧
      ¬ OwnVerdicts crossedFlows crossedStart crossedRun := by
  have hroom : NeverFull crossedFlows crossedStart crossedRun := by
    unfold NeverFull
    decide
  have hstored : StoredAt crossedFlows crossedStart crossedRun 1 false crossedDecision 1 :=
    ⟨1, 0, rfl, by decide, rfl⟩
  have hserved : ServedAt crossedFlows crossedStart crossedRun 7 false 3 (some .accept) :=
    ⟨1, 0, rfl, rfl, rfl, by decide⟩
  refine ⟨hroom, fun hown ↦ ?_⟩
  have haccept := hown 1 7 false _ _ _ _ (by decide) hstored hserved (by decide)
  cases haccept

/-- Without the second connection the packet gets its own verdict. -/
theorem packet_takes_latest_verdict_alone :
    let run : List (VerdictStep Bool) :=
      [.decide false (.at 0) (crossedReads false), .insert 1 0, .record, .recv false, .attempt 1]
    ServedAt crossedFlows crossedStart run 4 false 2 (some .drop) := by
  intro run
  have hroom : NeverFull crossedFlows crossedStart run := by
    unfold NeverFull
    decide
  have hstored : StoredAt crossedFlows crossedStart run 1 false crossedDecision 1 :=
    ⟨1, 0, rfl, by decide, rfl⟩
  have hserved : ServedAt crossedFlows crossedStart run 4 false 2 _ := ⟨1, 0, rfl, rfl, rfl, rfl⟩
  have huntouched : ∀ between op, 1 < between → between < 4 → run[between]? = some op →
      ¬ VerdictSystem.Touches crossedFlows (systemAt crossedFlows crossedStart run between)
        (destKey (crossedFlows false).event) op := by
    intro between op hafter hbefore hop
    obtain rfl | rfl : between = 2 ∨ between = 3 := by omega
    · obtain rfl := Option.some.inj hop
      exact id
    · obtain rfl := Option.some.inj hop
      exact id
  obtain ⟨hanswer, _⟩ := packet_takes_latest_verdict crossedFlows _ _ _ _ _ run hroom 1 4 false
    false crossedDecision 1 2 _ (by decide) hstored hserved rfl (by decide) huntouched
  rw [hanswer] at hserved
  exact hserved

end InterFire
