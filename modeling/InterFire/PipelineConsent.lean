import InterFire.Consent
import InterFire.PendingRuns
import InterFire.Pipeline
import Mathlib.Data.Set.Monotone

/-!
# What stands behind an accepted packet

Along every run of the pipeline, three kinds of single-use tokens are handed on: a decision that the
observation thread holds until it stores its verdict, the entry of the pending table until a packet
takes it, and the allow token of a prompt until a decision consumes it. With the ring buffer as a
channel they lead from an accepted packet back to what caused it.

`accepted_packets_have_connects` maps the accepted packets injectively to earlier connects to their
destinations, so no connect is the reason for two accepts, and follows the entry of the table from the
insert that stored it to the packet that takes it. `accepted_packets_have_consent` says that
the decision between them was made by the rules at that moment, or by an answer allow once that stands
behind no other packet.
-/

set_option autoImplicit false
set_option relaxedAutoImplicit false

namespace InterFire

open Policy Run

namespace Pipeline

/-! ### What a step does to the decision, the table and the prompts -/

/-- The decision that the observation thread holds until it stores its verdict. -/
def heldDecision (system : Pipeline) : Option (TcpConnectEvent × Decision) :=
  match system.observer with
  | .decided event decision => some (event, decision)
  | _ => none

/-- The event that a step decides, with the state it is decided in. -/
def decidedEvent (system : Pipeline) : PipelineStep → Option (TcpConnectEvent × PolicyState)
  | .poll clock reads => do
    let bytes ← polledRecord system (.poll clock reads)
    let event ← TcpConnectEvent.tryFromBytes bytes
    let policy ← system.shared.toPolicyLocks.lock
    return (event, policy)
  | _ => none

/-- The inversion of a decided event. Assumes: the step decides it. -/
theorem poll_of_decidedEvent {system : Pipeline} {op : PipelineStep} {event : TcpConnectEvent}
    {policy : PolicyState} (hdecided : decidedEvent system op = some (event, policy)) :
    ∃ clock reads bytes, op = .poll clock reads ∧ polledRecord system op = some bytes ∧
      TcpConnectEvent.tryFromBytes bytes = some event ∧
      system.shared.toPolicyLocks.lock = some policy ∧
      system.step op =
        { system with
          ring := system.ring.tail
          shared :=
            { system.shared with
              toPolicyLocks :=
                system.shared.toPolicyLocks.store (decide clock reads event policy).1 }
          observer := .decided event (decide clock reads event policy).2 } := by
  cases op with
  | poll clock reads =>
    simp only [decidedEvent, Option.bind_eq_bind, Option.bind_eq_some_iff, Option.pure_def,
      Option.some.injEq, Prod.mk.injEq] at hdecided
    obtain ⟨bytes, hbytes, _, hevent, _, hlock, rfl, rfl⟩ := hdecided
    refine ⟨clock, reads, bytes, rfl, hbytes, hevent, hlock, ?_⟩
    rcases poll_of_event clock reads hbytes hevent with ⟨hnone, _⟩ | ⟨found, hfound, hstep⟩
    · rw [hnone] at hlock
      cases hlock
    · obtain rfl := Option.some.inj (hfound.symm.trans hlock)
      exact hstep
  | _ => cases hdecided

/-- A poll that decides nothing changes at most the ring buffer. Assumes: it decides nothing. -/
theorem poll_of_not_decidedEvent {system : Pipeline} {clock : DecideClock} {reads : ProcReads}
    (hnone : decidedEvent system (.poll clock reads) = none) :
    ∃ ring, system.step (.poll clock reads) = { system with ring } := by
  simp only [step, poll]
  split
  · next bytes rest hidle hring =>
    have hpolled : polledRecord system (.poll clock reads) = some bytes := by
      simp [polledRecord, hidle, hring]
    split
    · exact ⟨rest, rfl⟩
    · next event hevent =>
      split
      · exact ⟨rest, rfl⟩
      · next shared decision hdecide =>
        exfalso
        simp only [Observe.decideSection, Option.bind_eq_bind, Option.bind_eq_some_iff,
          Option.pure_def] at hdecide
        obtain ⟨policy, hlock, _⟩ := hdecide
        simp [decidedEvent, hpolled, hevent, hlock] at hnone
  · exact ⟨system.ring, rfl⟩

theorem observer_of_heldDecision {system : Pipeline} {event : TcpConnectEvent} {decision : Decision}
    (hheld : system.heldDecision = some (event, decision)) :
    system.observer = .decided event decision := by
  rw [heldDecision] at hheld
  split at hheld
  · next held decided hobserver =>
    obtain ⟨rfl, rfl⟩ := Prod.mk.inj (Option.some.inj hheld)
    exact hobserver
  · cases hheld

/-- A decision that is held after a step was made by it, or was held before and is not stored by it.
Assumes: it is held after the step. -/
theorem heldDecision_step_cases {system : Pipeline} {op : PipelineStep} {event : TcpConnectEvent}
    {decision : Decision} (hheld : (system.step op).heldDecision = some (event, decision)) :
    (∃ clock reads policy, op = .poll clock reads ∧ decidedEvent system op = some (event, policy) ∧
        decision = (decide clock reads event policy).2) ∨
      (system.heldDecision = some (event, decision) ∧
        ∀ untilExpire untilStamp, op ≠ .insert untilExpire untilStamp) := by
  cases op with
  | poll clock reads =>
    cases hdecided : decidedEvent system (.poll clock reads) with
    | some found =>
      obtain ⟨polled, policy⟩ := found
      obtain ⟨clock', reads', _, heq, _, _, _, hstep⟩ := poll_of_decidedEvent hdecided
      obtain ⟨rfl, rfl⟩ := PipelineStep.poll.inj heq
      rw [hstep] at hheld
      obtain ⟨rfl, rfl⟩ := Prod.mk.inj (Option.some.inj hheld)
      exact .inl ⟨clock, reads, policy, rfl, rfl, rfl⟩
    | none =>
      obtain ⟨ring, hstep⟩ := poll_of_not_decidedEvent hdecided
      rw [hstep] at hheld
      exact .inr ⟨hheld, by simp⟩
  | insert untilExpire untilStamp =>
    simp only [step] at hheld
    split at hheld
    · cases hheld
    · next hnot => exact absurd (observer_of_heldDecision hheld) (hnot _ _)
  | record =>
    simp only [step] at hheld
    split at hheld
    · cases hheld
    · exact .inr ⟨hheld, by simp⟩
  | recv payload =>
    simp only [step] at hheld
    split at hheld <;> exact .inr ⟨hheld, by simp⟩
  | attempt elapsed =>
    refine .inr ⟨?_, by simp⟩
    simp only [step] at hheld
    split at hheld
    · split at hheld <;> exact hheld
    · exact hheld
  | connect argument pidTgid padding hasRoom => exact .inr ⟨hheld, by simp⟩
  | answer expireNow insertNow id verdict scope => exact .inr ⟨hheld, by simp⟩
  | listPending now => exact .inr ⟨hheld, by simp⟩
  | others rules processCache dns recent => exact .inr ⟨hheld, by simp⟩

theorem shared_step_attempt {system : Pipeline} {payload : List UInt8} {attempt : ℕ}
    (hserver : system.server = .serving payload attempt) (elapsed : Duration) :
    (system.step (.attempt elapsed)).shared =
      (lookupAttempt (system.clock + elapsed) payload attempt system.shared).1 := by
  simp only [step, hserver]
  split <;> next hlookup => simp [hlookup]

/-- A look for a verdict leaves the prompts alone. -/
theorem prompts_lookupAttempt (now : Instant) (payload : List UInt8) (attempt : ℕ)
    (shared : Shared) : (lookupAttempt now payload attempt shared).1.prompts = shared.prompts := by
  simp only [lookupAttempt]
  split
  · rfl
  · split
    · rfl
    · split <;> rfl

/-- What a step can do to the pending table: nothing, store the verdict of the held decision, or look
for the verdict of the packet under way. -/
theorem pending_step_cases (system : Pipeline) (op : PipelineStep) :
    (system.step op).shared.pending = system.shared.pending ∨
      (∃ untilExpire untilStamp event decision, op = .insert untilExpire untilStamp ∧
        system.observer = .decided event decision ∧ system.shared.pending.poisoned = false ∧
        (system.step op).shared.pending = system.shared.pending.store
          (system.shared.pending.value.insert (system.clock + untilExpire)
            (system.clock + untilExpire + untilStamp) decision.key decision.packetVerdict)) ∨
      ∃ elapsed payload attempt key, op = .attempt elapsed ∧
        system.server = .serving payload attempt ∧ tcpDestination payload = some key ∧
        system.shared.pending.poisoned = false ∧
        (system.step op).shared.pending = system.shared.pending.store
          (system.shared.pending.value.take (system.clock + elapsed) key).1 := by
  cases op with
  | poll clock reads =>
    refine .inl ?_
    cases hdecided : decidedEvent system (.poll clock reads) with
    | some found =>
      obtain ⟨_, _, _, _, _, _, _, hstep⟩ := poll_of_decidedEvent hdecided
      rw [hstep]
    | none =>
      obtain ⟨ring, hstep⟩ := poll_of_not_decidedEvent hdecided
      rw [hstep]
  | insert untilExpire untilStamp =>
    cases hobserver : system.observer with
    | decided event decision =>
      cases hpoison : system.shared.pending.poisoned with
      | false =>
        refine .inr (.inl ⟨untilExpire, untilStamp, event, decision, rfl, rfl, rfl, ?_⟩)
        simp only [step, hobserver]
        exact Observe.pending_pendingSection _ _ decision hpoison
      | true =>
        refine .inl ?_
        simp [step, hobserver, Observe.pendingSection, Mutex.lock, hpoison]
    | idle => exact .inl (by simp [step, hobserver])
    | stored event decision => exact .inl (by simp [step, hobserver])
  | record =>
    refine .inl ?_
    simp only [step]
    split
    · simp
    · rfl
  | recv payload =>
    refine .inl ?_
    simp only [step]
    split <;> rfl
  | attempt elapsed =>
    cases hserver : system.server with
    | idle => exact .inl (by simp [step, hserver])
    | serving payload attempt =>
      have hafter := shared_step_attempt hserver elapsed
      cases hkey : tcpDestination payload with
      | none => exact .inl (by rw [hafter]; simp [lookupAttempt, hkey])
      | some key =>
        cases hpoison : system.shared.pending.poisoned with
        | true => exact .inl (by rw [hafter]; simp [lookupAttempt, hkey, Mutex.lock, hpoison])
        | false =>
          refine .inr (.inr ⟨elapsed, payload, attempt, key, rfl, rfl, hkey, rfl, ?_⟩)
          rw [hafter]
          exact VerdictSystem.pending_lookupAttempt hkey hpoison
  | connect argument pidTgid padding hasRoom => exact .inl rfl
  | answer expireNow insertNow id verdict scope =>
    refine .inl ?_
    simp only [step, withPrompts]
    split <;> rfl
  | listPending now =>
    refine .inl ?_
    simp only [step, withPrompts]
    split <;> rfl
  | others rules processCache dns recent => exact .inl rfl

/-- The prompts under the locks that a decision takes. Assumes: it takes them. -/
theorem prompts_of_lock {locks : PolicyLocks} {policy : PolicyState}
    (hlock : locks.lock = some policy) :
    policy.prompts = locks.prompts.value ∧ locks.prompts.poisoned = false := by
  simp only [PolicyLocks.lock, Option.bind_eq_bind, Option.bind_eq_some_iff, Option.pure_def,
    Option.some.injEq] at hlock
  obtain ⟨rules, _, cache, _, prompts, hprompts, dns, _, recent, _, rfl⟩ := hlock
  refine ⟨(Mutex.value_of_lock hprompts).symm, ?_⟩
  by_contra hpoison
  simp [Mutex.lock, hpoison] at hprompts

/-- What a step can do to the prompts: nothing, decide an event, answer, or list. -/
theorem prompts_step_cases (system : Pipeline) (op : PipelineStep) :
    (decidedEvent system op = none ∧
        (system.step op).shared.prompts.value = system.shared.prompts.value) ∨
      (∃ clock reads event policy, op = .poll clock reads ∧
        decidedEvent system op = some (event, policy) ∧
        policy.prompts = system.shared.prompts.value ∧
        (system.step op).shared.prompts.value = (decide clock reads event policy).1.prompts) ∨
      (∃ expireNow insertNow id verdict scope, op = .answer expireNow insertNow id verdict scope ∧
        system.shared.prompts.poisoned = false ∧
        (system.step op).shared.prompts.value =
          (system.shared.prompts.value.answer expireNow insertNow id verdict scope).1) ∨
      ∃ now, op = .listPending now ∧
        (system.step op).shared.prompts.value = (system.shared.prompts.value.listPending now).1 := by
  cases op with
  | poll clock reads =>
    cases hdecided : decidedEvent system (.poll clock reads) with
    | some found =>
      obtain ⟨event, policy⟩ := found
      obtain ⟨clock', reads', _, heq, _, _, hlock, hstep⟩ := poll_of_decidedEvent hdecided
      obtain ⟨rfl, rfl⟩ := PipelineStep.poll.inj heq
      refine .inr (.inl ⟨clock, reads, event, policy, rfl, rfl, (prompts_of_lock hlock).1, ?_⟩)
      rw [hstep]
      rfl
    | none =>
      obtain ⟨ring, hstep⟩ := poll_of_not_decidedEvent hdecided
      exact .inl ⟨rfl, by rw [hstep]⟩
  | answer expireNow insertNow id verdict scope =>
    cases hpoison : system.shared.prompts.poisoned with
    | true => exact .inl ⟨rfl, by simp [step, withPrompts, Mutex.lock, hpoison]⟩
    | false =>
      refine .inr (.inr (.inl ⟨expireNow, insertNow, id, verdict, scope, rfl, rfl, ?_⟩))
      simp [step, withPrompts, Mutex.lock_eq hpoison]
  | listPending now =>
    cases hpoison : system.shared.prompts.poisoned with
    | true => exact .inl ⟨rfl, by simp [step, withPrompts, Mutex.lock, hpoison]⟩
    | false =>
      refine .inr (.inr (.inr ⟨now, rfl, ?_⟩))
      simp [step, withPrompts, Mutex.lock_eq hpoison]
  | insert untilExpire untilStamp =>
    refine .inl ⟨rfl, ?_⟩
    simp only [step, Observe.pendingSection]
    split
    · split <;> rfl
    · rfl
  | record =>
    refine .inl ⟨rfl, ?_⟩
    simp only [step, Observe.auditSection, Observe.statsSection]
    split
    · split <;> split <;> rfl
    · rfl
  | recv payload =>
    refine .inl ⟨rfl, ?_⟩
    simp only [step]
    split <;> rfl
  | attempt elapsed =>
    refine .inl ⟨rfl, ?_⟩
    cases hserver : system.server with
    | idle => simp [step, hserver]
    | serving payload attempt => rw [shared_step_attempt hserver, prompts_lookupAttempt]
  | connect argument pidTgid padding hasRoom => exact .inl ⟨rfl, rfl⟩
  | others rules processCache dns recent => exact .inl ⟨rfl, rfl⟩

/-! ### The three ledgers -/

/-- A decision waits for its verdict to be stored. -/
def decisionLedger : Ledger Pipeline PipelineStep Unit (TcpConnectEvent × Decision) where
  step := step
  held system _ := system.heldDecision
  granted system op := do
    let _ ← decidedEvent system op
    let held ← (system.step op).heldDecision
    return ((), held)
  consumed system op :=
    match op with
    | .insert _ _ => system.heldDecision.map fun _ ↦ ()
    | _ => none
  held_step system op _ := by
    rintro ⟨event, decision⟩ hheld
    rcases heldDecision_step_cases hheld with ⟨clock, reads, policy, rfl, hdecided, rfl⟩ |
      ⟨hbefore, hnot⟩
    · exact .inl (by simp [hdecided, hheld])
    · refine .inr ⟨hbefore, ?_⟩
      cases op with
      | insert untilExpire untilStamp => exact absurd rfl (hnot untilExpire untilStamp)
      | _ => simp
  held_of_consumed system op _ := by
    intro hconsumed
    cases op with
    | insert untilExpire untilStamp =>
      obtain ⟨held, hheld, _⟩ := Option.map_eq_some_iff.mp hconsumed
      exact ⟨held, hheld⟩
    | _ => cases hconsumed

/-- What is granted is the decision of a poll. Assumes: it is granted. -/
theorem decided_of_granted {system : Pipeline} {op : PipelineStep} {event : TcpConnectEvent}
    {decision : Decision} (hgranted : decisionLedger.granted system op = some ((), event, decision)) :
    ∃ clock reads policy, op = .poll clock reads ∧ decidedEvent system op = some (event, policy) ∧
      decision = (decide clock reads event policy).2 := by
  simp only [decisionLedger, Option.bind_eq_bind, Option.bind_eq_some_iff, Option.pure_def,
    Option.some.injEq, Prod.mk.injEq, true_and] at hgranted
  obtain ⟨⟨polled, policy⟩, hdecided, _, hheld, rfl⟩ := hgranted
  obtain ⟨clock, reads, _, rfl, _, _, _, hstep⟩ := poll_of_decidedEvent hdecided
  rw [hstep] at hheld
  obtain ⟨rfl, rfl⟩ := Prod.mk.inj (Option.some.inj hheld)
  exact ⟨clock, reads, policy, rfl, hdecided, rfl⟩

/-- The entry that a step stores, and its key. -/
def storedEntry (system : Pipeline) : PipelineStep → Option (DestKey × PendingEntry)
  | .insert untilExpire untilStamp => do
    let (_, decision) ← system.heldDecision
    let _ ← system.shared.pending.lock
    return (decision.key,
      ⟨decision.packetVerdict, system.clock + untilExpire + untilStamp⟩)
  | _ => none

/-- The key whose entry a step takes. -/
def takenKey (system : Pipeline) : PipelineStep → Option DestKey
  | .attempt elapsed =>
    match system.server with
    | .idle => none
    | .serving payload _ => do
      let key ← tcpDestination payload
      let pending ← system.shared.pending.lock
      let _ ← (pending.take (system.clock + elapsed) key).2
      return key
  | _ => none

/-- The inversion of a taken key. Assumes: the step takes the entry of the key. -/
theorem attempt_of_takenKey {system : Pipeline} {op : PipelineStep} {key : DestKey}
    (htaken : takenKey system op = some key) :
    ∃ elapsed payload attempt verdict, op = .attempt elapsed ∧
      system.server = .serving payload attempt ∧ tcpDestination payload = some key ∧
      system.shared.pending.poisoned = false ∧
      (system.shared.pending.value.take (system.clock + elapsed) key).2 = some verdict := by
  cases op with
  | attempt elapsed =>
    simp only [takenKey] at htaken
    split at htaken
    · cases htaken
    · next payload attempt hserver =>
      simp only [Option.bind_eq_bind, Option.bind_eq_some_iff, Option.pure_def,
        Option.some.injEq] at htaken
      obtain ⟨key', hkey, pending, hlock, verdict, hverdict, rfl⟩ := htaken
      have hclean : system.shared.pending.poisoned = false := by
        by_contra hpoison
        simp [Mutex.lock, hpoison] at hlock
      obtain rfl := Mutex.value_of_lock hlock
      exact ⟨elapsed, payload, attempt, verdict, rfl, hserver, hkey, hclean, hverdict⟩
  | _ => cases htaken

/-- The inversion of a stored entry. Assumes: the step stores it. -/
theorem insert_of_storedEntry {system : Pipeline} {op : PipelineStep} {key : DestKey}
    {entry : PendingEntry} (hstored : storedEntry system op = some (key, entry)) :
    ∃ untilExpire untilStamp event decision, op = .insert untilExpire untilStamp ∧
      system.heldDecision = some (event, decision) ∧ decision.key = key ∧
      entry = ⟨decision.packetVerdict, system.clock + untilExpire + untilStamp⟩ := by
  cases op with
  | insert untilExpire untilStamp =>
    simp only [storedEntry, Option.bind_eq_bind, Option.bind_eq_some_iff, Option.pure_def,
      Option.some.injEq, Prod.mk.injEq] at hstored
    obtain ⟨⟨event, decision⟩, hheld, _, _, rfl, rfl⟩ := hstored
    exact ⟨untilExpire, untilStamp, event, decision, rfl, hheld, rfl, rfl⟩
  | _ => cases hstored

/-- A taken entry is gone. Assumes: the step takes it. -/
theorem get_of_takenKey {system : Pipeline} {op : PipelineStep} {key : DestKey}
    (htaken : takenKey system op = some key) :
    (system.step op).shared.pending.value.entries.get key = none := by
  obtain ⟨elapsed, payload, attempt, verdict, rfl, hserver, hkey, hclean, _⟩ :=
    attempt_of_takenKey htaken
  rw [shared_step_attempt hserver, VerdictSystem.pending_lookupAttempt hkey hclean]
  exact FiniteMap.get_remove_self _ _

/-- The verdict of a decision waits in the table for a packet. -/
def pendingLedger : Ledger Pipeline PipelineStep DestKey PendingEntry where
  step := step
  held system key := system.shared.pending.value.entries.get key
  granted := storedEntry
  consumed := takenKey
  held_step system op key entry := by
    intro hheld
    have hnot : takenKey system op ≠ some key := by
      intro htaken
      rw [get_of_takenKey htaken] at hheld
      cases hheld
    rcases pending_step_cases system op with hsame |
      ⟨untilExpire, untilStamp, event, decision, rfl, hobserver, hclean, hinsert⟩ |
      ⟨elapsed, payload, attempt, taken, rfl, _, _, _, htake⟩
    · exact .inr ⟨hsame ▸ hheld, hnot⟩
    · rw [hinsert, Mutex.value_store] at hheld
      by_cases hkey : key = decision.key
      · subst hkey
        rw [PendingTable.get_insert_self] at hheld
        obtain rfl := Option.some.inj hheld
        exact .inl (by simp [storedEntry, heldDecision, hobserver, Mutex.lock_eq hclean])
      · rw [PendingTable.insert_eq_store] at hheld
        exact .inr ⟨PendingTable.get_of_get_expire _ (FiniteMap.get_of_get_store hkey hheld), hnot⟩
    · rw [htake, Mutex.value_store, PendingTable.take, FiniteMap.get_remove] at hheld
      split_ifs at hheld
      exact .inr ⟨PendingTable.get_of_get_expire _ hheld, hnot⟩
  held_of_consumed system op key := by
    intro hconsumed
    obtain ⟨elapsed, payload, attempt, verdict, _, _, _, _, htake⟩ := attempt_of_takenKey hconsumed
    obtain ⟨entry, hlive, _⟩ := Option.map_eq_some_iff.mp htake
    exact ⟨entry, PendingTable.get_of_get_expire _ hlive⟩

/-- The allow token that an answer creates. -/
def grantedToken (system : Pipeline) : PipelineStep → Option (PromptKey × Instant)
  | .answer expireNow insertNow id verdict scope => do
    let prompts ← system.shared.prompts.lock
    match (prompts.answer expireNow insertNow id verdict scope).2 with
    | .ok answered => if answered.grantsOnce then some (answered.key, insertNow) else none
    | .error _ => none
  | _ => none

/-- The key whose allow token a decision consumes. -/
def spentToken (system : Pipeline) : PipelineStep → Option PromptKey
  | .poll clock reads => do
    let (event, policy) ← decidedEvent system (.poll clock reads)
    consumedToken clock reads event policy
  | _ => none

/-- The allow token of an answer waits for a decision. -/
def tokenLedger : Ledger Pipeline PipelineStep PromptKey Instant where
  step := step
  held system key := system.shared.prompts.value.onceAllows.get key
  granted := grantedToken
  consumed := spentToken
  held_step system op key inserted := by
    intro hheld
    rcases prompts_step_cases system op with ⟨hnone, hsame⟩ |
      ⟨clock, reads, event, policy, rfl, hdecided, hprompts, hafter⟩ |
      ⟨expireNow, insertNow, id, verdict, scope, rfl, hclean, hafter⟩ | ⟨now, rfl, hafter⟩
    · refine .inr ⟨hsame ▸ hheld, ?_⟩
      cases op with
      | poll clock reads => simp [spentToken, hnone]
      | _ => simp [spentToken]
    · rw [hafter] at hheld
      obtain ⟨hbefore, hnot⟩ := held_decide clock reads event policy hheld
      rw [hprompts] at hbefore
      exact .inr ⟨hbefore, by simpa [spentToken, hdecided] using hnot⟩
    · rw [hafter] at hheld
      rcases PromptQueue.held_answer hheld with ⟨answered, hanswer, hgrants, rfl, rfl⟩ | hbefore
      · exact .inl (by simp [grantedToken, Mutex.lock_eq hclean, hanswer, hgrants])
      · exact .inr ⟨hbefore, by simp [spentToken]⟩
    · rw [hafter] at hheld
      exact .inr ⟨PromptQueue.tokensLe_listPending _ now key inserted hheld, by simp [spentToken]⟩
  held_of_consumed system op key := by
    intro hconsumed
    cases op with
    | poll clock reads =>
      simp only [spentToken, Option.bind_eq_bind, Option.bind_eq_some_iff] at hconsumed
      obtain ⟨⟨event, policy⟩, hdecided, hspent⟩ := hconsumed
      obtain ⟨_, _, _, _, _, _, hlock, _⟩ := poll_of_decidedEvent hdecided
      obtain ⟨inserted, hget, _⟩ := held_of_consumedToken clock reads event policy hspent
      rw [(prompts_of_lock hlock).1] at hget
      exact ⟨inserted, hget⟩
    | _ => cases hconsumed

/-! ### What holds along a run -/

section Runs

variable (begin : Pipeline) (ops : List PipelineStep)

/-- The kernel program writes an event at an index. -/
def ConnectedAt (index : ℕ) (event : TcpConnectEvent) : Prop :=
  RecordedAt step (fun _ op ↦ emitted op) begin ops index event

/-- The event of a record is decided at an index, in a policy state. -/
def EventDecidedAt (index : ℕ) (event : TcpConnectEvent) (clock : DecideClock) (reads : ProcReads)
    (policy : PolicyState) : Prop :=
  ops[index]? = some (.poll clock reads) ∧
    decidedEvent (stateAt step begin ops index) (.poll clock reads) = some (event, policy)

/-- A packet is accepted at an index, while the clock shows `now`. -/
def AcceptedAt (index : ℕ) (payload : List UInt8) (now : Instant) : Prop :=
  ∃ elapsed, ops[index]? = some (.attempt elapsed) ∧
    answeredPacket (stateAt step begin ops index) (.attempt elapsed) = some (payload, .accept) ∧
    now = (stateAt step begin ops index).clock + elapsed

/-- The decision at an index consumes the allow token of a key. -/
def SpentAt (index : ℕ) (key : PromptKey) (checkNow : Instant) : Prop :=
  ∃ event clock reads policy, EventDecidedAt begin ops index event clock reads policy ∧
    consumedToken clock reads event policy = some key ∧ checkNow = clock.takeCheck

/-- The first answer to a prompt pending under the key says allow once, at an index. -/
def OnceAnsweredAt (index : ℕ) (key : PromptKey) (grantNow : Instant) : Prop :=
  ∃ expireNow id, ops[index]? = some (.answer expireNow grantNow id .allow .once) ∧
    ((stateAt step begin ops index).shared.prompts.value.answer expireNow grantNow id .allow
      .once).2 = .ok { id, key, verdict := .allow, scope := .once, duplicate := false } ∧
    ∃ prompt, ((stateAt step begin ops index).shared.prompts.value.expire expireNow).prompts.get id =
      some prompt ∧ prompt.state = .pending ∧ prompt.key = key

/-- The entry of a key in the pending table before the operation at an index. -/
def pendingEntryAt (index : ℕ) (key : DestKey) : Option PendingEntry :=
  (stateAt step begin ops index).shared.pending.value.entries.get key

/-- The observation thread stores the verdict of its decision about an event at an index, with its
stamp: the table holds both under the key of the decision afterwards. -/
def VerdictStoredAt (index : ℕ) (event : TcpConnectEvent) (decision : Decision)
    (stamp : Instant) : Prop :=
  ∃ untilExpire untilStamp, ops[index]? = some (.insert untilExpire untilStamp) ∧
    (stateAt step begin ops index).observer = .decided event decision ∧
    stamp = (stateAt step begin ops index).clock + untilExpire + untilStamp ∧
    pendingEntryAt begin ops (index + 1) decision.key = some ⟨decision.packetVerdict, stamp⟩

/-- A packet takes the entry of its destination at an index: the table holds the entry when the packet
looks, the look yields its verdict, and the table holds it no longer. -/
def EntryTakenAt (index : ℕ) (payload : List UInt8) (key : DestKey) (entry : PendingEntry) : Prop :=
  ∃ elapsed attempt, ops[index]? = some (.attempt elapsed) ∧
    (stateAt step begin ops index).server = .serving payload attempt ∧
    tcpDestination payload = some key ∧ pendingEntryAt begin ops index key = some entry ∧
    ((stateAt step begin ops index).shared.pending.value.take
      ((stateAt step begin ops index).clock + elapsed) key).2 = some entry.verdict ∧
    pendingEntryAt begin ops (index + 1) key = none

/-- The table keeps its invariant and its lifetime. Assumes: it has the invariant at the start. -/
theorem sound_pending (hsound : begin.shared.pending.value.Sound) (index : ℕ) :
    (stateAt step begin ops index).shared.pending.value.Sound ∧
      (stateAt step begin ops index).shared.pending.value.ttl =
        begin.shared.pending.value.ttl := by
  refine stateAt_invariant step begin ops (fun system ↦ system.shared.pending.value.Sound ∧
    system.shared.pending.value.ttl = begin.shared.pending.value.ttl) ⟨hsound, rfl⟩
    (fun system op hbefore ↦ ?_) index
  obtain ⟨hbefore, httl⟩ := hbefore
  rcases pending_step_cases system op with hsame | ⟨_, _, _, _, _, _, _, hinsert⟩ |
    ⟨_, _, _, _, _, _, _, _, htake⟩
  · exact hsame ▸ ⟨hbefore, httl⟩
  · rw [hinsert, Mutex.value_store]
    exact ⟨PendingTable.sound_insert hbefore .., (PendingTable.ttl_insert ..).trans httl⟩
  · rw [htake, Mutex.value_store]
    exact ⟨PendingTable.sound_take hbefore .., httl⟩

/-- The prompts keep the lifetime of their tokens. -/
theorem promptTtl_stateAt (index : ℕ) :
    (stateAt step begin ops index).shared.prompts.value.ttl = begin.shared.prompts.value.ttl := by
  refine stateAt_invariant step begin ops (fun system ↦
    system.shared.prompts.value.ttl = begin.shared.prompts.value.ttl) rfl
    (fun system op hbefore ↦ ?_) index
  rcases prompts_step_cases system op with ⟨_, hsame⟩ |
    ⟨clock, reads, event, policy, _, _, hprompts, hafter⟩ | ⟨_, _, _, _, _, _, _, hafter⟩ |
    ⟨_, _, hafter⟩
  · rw [hsame, hbefore]
  · rw [hafter, ttl_decide, hprompts, hbefore]
  · rw [hafter, PromptQueue.ttl_answer, hbefore]
  · rw [hafter, PromptQueue.listPending, PromptQueue.ttl_expire, hbefore]

variable {begin ops} in
theorem EntryTakenAt.tcpDestination {index : ℕ} {payload : List UInt8} {key : DestKey}
    {entry : PendingEntry} (htaken : EntryTakenAt begin ops index payload key entry) :
    InterFire.tcpDestination payload = some key := by
  obtain ⟨_, _, _, _, hkey, _⟩ := htaken
  exact hkey

variable {begin ops} in
theorem EntryTakenAt.pendingEntryAt {index : ℕ} {payload : List UInt8} {key : DestKey}
    {entry : PendingEntry} (htaken : EntryTakenAt begin ops index payload key entry) :
    Pipeline.pendingEntryAt begin ops index key = some entry := by
  obtain ⟨_, _, _, _, _, hentry, _⟩ := htaken
  exact hentry

/-- The entry behind an accept is fresh, and the packet takes it. Assumes: the invariant of the table,
and the accept. -/
theorem taken_of_acceptedAt (hsound : begin.shared.pending.value.Sound) {index : ℕ}
    {payload : List UInt8} {now : Instant} (haccepted : AcceptedAt begin ops index payload now) :
    ∃ key stamp, pendingLedger.ConsumedAt begin ops index key ∧
      EntryTakenAt begin ops index payload key ⟨.accept, stamp⟩ ∧
      now - stamp ≤ begin.shared.pending.value.ttl := by
  obtain ⟨elapsed, hop, hanswered, rfl⟩ := haccepted
  obtain ⟨_, _, key, pending, heq, hserver, hkey, hlock, htaken⟩ :=
    taken_of_answeredPacket hanswered
  obtain rfl := PipelineStep.attempt.inj heq
  obtain ⟨hbefore, httl⟩ := sound_pending begin ops hsound index
  have hvalue := Mutex.value_of_lock hlock
  subst hvalue
  obtain ⟨⟨verdict, stamp⟩, hget, hverdict, hfresh⟩ := PendingTable.entry_of_take hbefore htaken
  obtain rfl : verdict = .accept := hverdict
  have hkeyTaken : takenKey (stateAt step begin ops index) (.attempt elapsed) = some key := by
    simp [takenKey, hserver, hkey, hlock, htaken]
  refine ⟨key, stamp, ⟨_, hop, hkeyTaken⟩,
    ⟨elapsed, _, hop, hserver, hkey, hget, htaken, ?_⟩, httl ▸ hfresh⟩
  rw [pendingEntryAt, stateAt_succ step begin ops hop]
  exact get_of_takenKey hkeyTaken

/-- Behind every accepted packet there is a decision of its own: for an event with the destination of
the packet, an accept, stored in the table, kept there, taken by the packet and still fresh. Assumes:
an empty table and an idle observation thread at the start. -/
theorem exists_decided_of_accepted (hsound : begin.shared.pending.value.Sound)
    (hempty : ∀ key, begin.shared.pending.value.entries.get key = none)
    (hidle : begin.observer = .idle) :
    ∃ decided : ℕ → ℕ,
      Set.InjOn decided {index | ∃ payload now, AcceptedAt begin ops index payload now} ∧
      ∀ index payload now, AcceptedAt begin ops index payload now →
        ∃ event clock reads policy stored stamp,
          EventDecidedAt begin ops (decided index) event clock reads policy ∧
          decided index < stored ∧ stored < index ∧
          (decide clock reads event policy).2.packetVerdict = .accept ∧
          VerdictStoredAt begin ops stored event (decide clock reads event policy).2 stamp ∧
          (∀ between, stored < between → between ≤ index →
            pendingEntryAt begin ops between (destKey event) = some ⟨.accept, stamp⟩) ∧
          EntryTakenAt begin ops index payload (destKey event) ⟨.accept, stamp⟩ ∧
          now - stamp ≤ begin.shared.pending.value.ttl := by
  obtain ⟨stored, hstored, hgrant⟩ := pendingLedger.consumption_sources begin ops hempty
  obtain ⟨decided, hdecided, hheld⟩ := decisionLedger.consumption_injection begin ops
    (fun _ ↦ by simp [decisionLedger, heldDecision, hidle])
  have hconsumed : ∀ index payload now, AcceptedAt begin ops index payload now →
      ∃ key, pendingLedger.ConsumedAt begin ops index key := fun index payload now haccepted ↦ by
    obtain ⟨key, _, hconsumed, _⟩ := taken_of_acceptedAt begin ops hsound haccepted
    exact ⟨key, hconsumed⟩
  -- The step that stores an entry ends the wait of its decision.
  have hends : ∀ index key token, pendingLedger.GrantedAt begin ops index key token →
      decisionLedger.ConsumedAt begin ops index () := by
    rintro index key token ⟨op, hop, hgranted⟩
    obtain ⟨_, _, event, decision, rfl, hdecision, _, _⟩ := insert_of_storedEntry hgranted
    exact ⟨_, hop, by simpa [decisionLedger] using ⟨event, decision, hdecision⟩⟩
  refine ⟨decided ∘ stored, hdecided.comp (hstored.mono ?_) ?_, ?_⟩
  · rintro index ⟨payload, now, haccepted⟩
    exact hconsumed index payload now haccepted
  · rintro index ⟨payload, now, haccepted⟩
    obtain ⟨key, hkey⟩ := hconsumed index payload now haccepted
    obtain ⟨_, token, _, hgranted, _⟩ := hgrant index key hkey
    exact ⟨(), hends _ _ _ hgranted⟩
  · intro index payload now haccepted
    obtain ⟨key, stamp, hconsumes, htaken, hfresh⟩ := taken_of_acceptedAt begin ops hsound haccepted
    obtain ⟨hbefore, entry, hentry, hgranted, hkept⟩ := hgrant index key hconsumes
    obtain rfl := Option.some.inj (htaken.pendingEntryAt.symm.trans hentry)
    have hends := hends _ _ _ hgranted
    obtain ⟨op, hop, hgranted⟩ := hgranted
    obtain ⟨untilExpire, untilStamp, event, decision, rfl, hdecision, rfl, hsame⟩ :=
      insert_of_storedEntry hgranted
    obtain ⟨hverdict, hstamp⟩ := PendingEntry.mk.inj hsame
    obtain ⟨hearlier, ⟨event', decision'⟩, hheldAt, op, hpoll, hmade⟩ := hheld _ () hends
    obtain ⟨rfl, rfl⟩ := Prod.mk.inj (Option.some.inj (hdecision.symm.trans hheldAt))
    obtain ⟨clock, reads, policy, rfl, hdecided, rfl⟩ := decided_of_granted hmade
    refine ⟨event, clock, reads, policy, stored index, stamp, ⟨hpoll, hdecided⟩, hearlier, hbefore,
      hverdict.symm, ⟨untilExpire, untilStamp, hop, observer_of_heldDecision hdecision, hstamp, ?_⟩,
      ?_, ?_, hfresh⟩
    · rw [← hverdict]
      exact hkept _ (Nat.lt_succ_self _) hbefore
    · rw [← key_decide clock reads event policy]
      exact hkept
    · rw [← key_decide clock reads event policy]
      exact htaken

/-- A decided event was written by the kernel program. Later decisions have later connects. Assumes:
an empty ring buffer at the start. -/
theorem exists_connected_of_decided (hring : begin.ring = []) :
    ∃ connected : ℕ → ℕ,
      StrictMonoOn connected
        {index | ∃ event clock reads policy, EventDecidedAt begin ops index event clock reads policy} ∧
      ∀ index event clock reads policy, EventDecidedAt begin ops index event clock reads policy →
        connected index < index ∧ ConnectedAt begin ops (connected index) event := by
  obtain ⟨sender, hmono, hsender⟩ := ringChannel.sender_strictMono begin ops hring
  have hreceived : ∀ index event clock reads policy,
      EventDecidedAt begin ops index event clock reads policy →
        ∃ bytes, ringChannel.ReceivedAt begin ops index bytes ∧
          TcpConnectEvent.tryFromBytes bytes = some event := by
    rintro index event clock reads policy ⟨hpoll, hdecided⟩
    obtain ⟨_, _, bytes, _, hpolled, hevent, _⟩ := poll_of_decidedEvent hdecided
    exact ⟨bytes, ⟨_, hpoll, hpolled⟩, hevent⟩
  refine ⟨sender, hmono.mono ?_, ?_⟩
  · rintro index ⟨event, clock, reads, policy, hdecided⟩
    obtain ⟨bytes, hbytes, _⟩ := hreceived index event clock reads policy hdecided
    exact ⟨bytes, hbytes⟩
  · intro index event clock reads policy hdecided
    obtain ⟨bytes, hbytes, hevent⟩ := hreceived index event clock reads policy hdecided
    obtain ⟨hbefore, op, hop, hsent⟩ := hsender index bytes hbytes
    refine ⟨hbefore, op, hop, ?_⟩
    -- The record reads as the event that was written.
    have hread := map_emittedRecord (stateAt step begin ops (sender index)) op
    rw [show emittedRecord _ op = some bytes from hsent, Option.map_some, hevent] at hread
    obtain ⟨written, hwritten, hsame⟩ := Option.map_eq_some_iff.mp hread.symm
    exact hwritten.trans hsame

/-- A token that is spent was granted by an answer of its own. Assumes: no tokens at the start. -/
theorem exists_answered_of_spent
    (hempty : ∀ key, begin.shared.prompts.value.onceAllows.get key = none) :
    ∃ answered : ℕ → ℕ,
      Set.InjOn answered {index | ∃ key checkNow, SpentAt begin ops index key checkNow} ∧
      ∀ index key checkNow, SpentAt begin ops index key checkNow →
        answered index < index ∧ ∃ grantNow, OnceAnsweredAt begin ops (answered index) key grantNow ∧
          checkNow ≤ grantNow + begin.shared.prompts.value.ttl := by
  obtain ⟨answered, hinjective, hanswered⟩ := tokenLedger.consumption_injection begin ops hempty
  have hconsumed : ∀ index key checkNow, SpentAt begin ops index key checkNow →
      tokenLedger.ConsumedAt begin ops index key := by
    rintro index key checkNow ⟨event, clock, reads, policy, ⟨hpoll, hdecided⟩, hspent, _⟩
    exact ⟨_, hpoll, by simp [tokenLedger, spentToken, hdecided, hspent]⟩
  refine ⟨answered, hinjective.mono ?_, fun index key checkNow hspent ↦ ?_⟩
  · rintro index ⟨key, checkNow, hspent⟩
    exact ⟨key, hconsumed index key checkNow hspent⟩
  obtain ⟨hbefore, grantNow, hheld, op, hop, hgranted⟩ :=
    hanswered index key (hconsumed index key checkNow hspent)
  refine ⟨hbefore, grantNow, ?_, ?_⟩
  · cases op with
    | answer expireNow insertNow id verdict scope =>
      simp only [tokenLedger, grantedToken, Option.bind_eq_bind, Option.bind_eq_some_iff] at hgranted
      obtain ⟨prompts, hlock, hgranted⟩ := hgranted
      obtain rfl := Mutex.value_of_lock hlock
      split at hgranted
      · next answered hanswer =>
        split_ifs at hgranted with hgrants
        obtain ⟨rfl, rfl⟩ := Prod.mk.inj (Option.some.inj hgranted)
        obtain ⟨rfl, rfl, hfirst, hprompt⟩ := PromptQueue.asked_of_grantsOnce hanswer hgrants
        exact ⟨expireNow, id, hop, hanswer.trans (congrArg _ hfirst), hprompt⟩
      · cases hgranted
    | _ => cases hgranted
  · -- The token consumed is the one the ledger names, so its age is the one the take checked.
    obtain ⟨event, clock, reads, policy, ⟨_, hdecided⟩, hspent, rfl⟩ := hspent
    obtain ⟨_, _, _, _, _, _, hlock, _⟩ := poll_of_decidedEvent hdecided
    obtain ⟨inserted, hget, hfresh⟩ := held_of_consumedToken clock reads event policy hspent
    rw [(prompts_of_lock hlock).1] at hget hfresh
    obtain rfl := Option.some.inj (hget.symm.trans hheld)
    rwa [promptTtl_stateAt] at hfresh

end Runs

end Pipeline

section MainResults

open Pipeline

/-- Every accepted packet has a connect of its own. In every run the accepted packets map injectively
to earlier connects to their destinations: the event of the connect was decided, its accept was stored
under the destination, stayed in the table, and the packet took it, no longer than the lifetime after
it was stamped. So a packet that no connect announced is not accepted, and one connect is the reason
for at most one accept. Assumes: the pending table is bounded. -/
theorem accepted_packets_have_connects (locks : PolicyLocks) (capacity : ℕ)
    (hcapacity : 0 < capacity) (ttl : Duration) (stats : Mutex StatsStore)
    (audit : Mutex (List String)) (clock : Instant) (ops : List PipelineStep) :
    let begin := Pipeline.start locks (.new capacity hcapacity ttl) stats audit clock
    ∃ connected : ℕ → ℕ,
      Set.InjOn connected {index | ∃ payload now, AcceptedAt begin ops index payload now} ∧
      ∀ index payload now, AcceptedAt begin ops index payload now →
        ∃ event decided clock reads policy stored stamp,
          ConnectedAt begin ops (connected index) event ∧ connected index < decided ∧
          EventDecidedAt begin ops decided event clock reads policy ∧ decided < stored ∧
          (decide clock reads event policy).2.packetVerdict = .accept ∧
          VerdictStoredAt begin ops stored event (decide clock reads event policy).2 stamp ∧
          stored < index ∧ tcpDestination payload = some (destKey event) ∧
          (∀ between, stored < between → between ≤ index →
            pendingEntryAt begin ops between (destKey event) = some ⟨.accept, stamp⟩) ∧
          EntryTakenAt begin ops index payload (destKey event) ⟨.accept, stamp⟩ ∧
          now - stamp ≤ ttl := by
  intro begin
  obtain ⟨decided, hdecided, hbehind⟩ := exists_decided_of_accepted begin ops
    (PendingTable.sound_new capacity hcapacity ttl) (fun key ↦ FiniteMap.get_empty key) rfl
  obtain ⟨connected, hmono, hconnected⟩ := exists_connected_of_decided begin ops rfl
  refine ⟨connected ∘ decided, hmono.injOn.comp hdecided ?_, ?_⟩
  · rintro index ⟨payload, now, haccepted⟩
    obtain ⟨event, clock, reads, policy, _, _, hdecidedAt, _⟩ :=
      hbehind index payload now haccepted
    exact ⟨event, clock, reads, policy, hdecidedAt⟩
  · intro index payload now haccepted
    obtain ⟨event, clock, reads, policy, stored, stamp, hdecidedAt, hlater, hbefore, hverdict,
      hstored, hkept, htaken, hfresh⟩ := hbehind index payload now haccepted
    obtain ⟨hearlier, hconnect⟩ := hconnected _ event clock reads policy hdecidedAt
    exact ⟨event, decided index, clock, reads, policy, stored, stamp, hconnect, hearlier,
      hdecidedAt, hlater, hverdict, hstored, hbefore, htaken.tcpDestination, hkept, htaken, hfresh⟩

/-- A connect of the process 8 to port 443 of 1.2.3.4. -/
def aptConnect : PipelineStep :=
  .connect (some (sockaddrMemory ⟨1, 2, 3, 4⟩ 443)) 34359738376 0 true

/-- The daemon with one rule, which allows that connection. -/
def aptStart : Pipeline :=
  .start crossedStart.shared.toPolicyLocks (.new 1 Nat.one_pos 60) (.new .new) (.new []) 0

/-- The way of one connection through the pipeline. -/
def aptRun : List PipelineStep :=
  [aptConnect, .poll (.at 0) (crossedReads true), .insert 1 0, .record, .recv (synPacket 1),
    .attempt 1]

/-- The packet of `aptRun` is accepted because of the connect. -/
theorem accepted_packets_have_connects_aptRun :
    AcceptedAt aptStart aptRun 5 (synPacket 1) 2 ∧
      ∃ connected < 5, ∃ event, ConnectedAt aptStart aptRun connected event ∧
        destKey event = ⟨0x01020304, 443⟩ := by
  have haccepted : AcceptedAt aptStart aptRun 5 (synPacket 1) 2 := ⟨1, rfl, by decide, by decide⟩
  refine ⟨haccepted, ?_⟩
  obtain ⟨connected, _, hconnected⟩ := accepted_packets_have_connects
    crossedStart.shared.toPolicyLocks 1 Nat.one_pos 60 (.new .new) (.new []) 0 aptRun
  obtain ⟨event, decided, _, _, _, stored, _, hconnect, hearlier, _, hlater, _, _, hbefore, hkey,
    _⟩ := hconnected 5 _ _ haccepted
  refine ⟨connected 5, by omega, event, hconnect, ?_⟩
  have hpacket : tcpDestination (synPacket 1) = some ⟨0x01020304, 443⟩ := by decide
  exact Option.some.inj (hkey.symm.trans hpacket)

/-- Every accepted packet has consent of its own. In every run the accepted packets map injectively to
earlier decisions about their destinations. The process behind such a decision is known, and either
the rules of that moment allow its connection, or the decision spends the token of an answer allow
once to a prompt about this program and destination; and no two decisions spend the token of one
answer. Assumes: the pending table and the prompt queue are bounded. -/
theorem accepted_packets_have_consent (rules : Mutex RuleSet) (processCache : Mutex ProcessCache)
    (dns : Mutex DnsCache) (recent : Mutex RecentConnects) (promptCapacity : ℕ)
    (hprompts : 0 < promptCapacity) (promptTtl : Duration) (capacity : ℕ)
    (hcapacity : 0 < capacity) (ttl : Duration) (stats : Mutex StatsStore)
    (audit : Mutex (List String)) (clock : Instant) (ops : List PipelineStep) :
    let locks : PolicyLocks :=
      { rules, processCache, prompts := .new (.new promptCapacity hprompts promptTtl), dns, recent }
    let begin := Pipeline.start locks (.new capacity hcapacity ttl) stats audit clock
    ∃ decided answered : ℕ → ℕ,
      Set.InjOn decided {index | ∃ payload now, AcceptedAt begin ops index payload now} ∧
      Set.InjOn answered {index | ∃ key checkNow, SpentAt begin ops index key checkNow} ∧
      ∀ index payload now, AcceptedAt begin ops index payload now →
        decided index < index ∧ ∃ event clock reads policy identity cache,
          EventDecidedAt begin ops (decided index) event clock reads policy ∧
          tcpDestination payload = some (destKey event) ∧
          attributeEvent reads event policy.cache = .ok (identity, cache) ∧
          (AllowedByRules clock event policy identity ∨
            SpentAt begin ops (decided index) (promptKey identity event) clock.takeCheck ∧
              answered (decided index) < decided index ∧
              ∃ grantNow,
                OnceAnsweredAt begin ops (answered (decided index)) (promptKey identity event)
                  grantNow ∧
                clock.takeCheck ≤ grantNow + promptTtl) := by
  intro locks begin
  obtain ⟨decided, hdecided, hbehind⟩ := exists_decided_of_accepted begin ops
    (PendingTable.sound_new capacity hcapacity ttl) (fun key ↦ FiniteMap.get_empty key) rfl
  obtain ⟨answered, hanswered, hgrant⟩ :=
    exists_answered_of_spent begin ops (fun key ↦ FiniteMap.get_empty key)
  refine ⟨decided, answered, hdecided, hanswered, fun index payload now haccepted ↦ ?_⟩
  obtain ⟨event, clock, reads, policy, stored, stamp, hdecidedAt, hlater, hbefore, hverdict, _, _,
    htaken, _⟩ := hbehind index payload now haccepted
  obtain ⟨_, identity, cache, hidentity, hreason⟩ := decide_accept_cases clock reads event policy
    hverdict
  refine ⟨hlater.trans hbefore, event, clock, reads, policy, identity, cache, hdecidedAt,
    htaken.tcpDestination, hidentity, ?_⟩
  rcases hreason with hspent | hallowed
  · have hspentAt : SpentAt begin ops (decided index) (promptKey identity event) clock.takeCheck :=
      ⟨event, clock, reads, policy, hdecidedAt, hspent, rfl⟩
    exact .inr ⟨hspentAt, hgrant _ _ _ hspentAt⟩
  · exact .inl hallowed

/-- The daemon without rules. -/
def curlStart : Pipeline :=
  .start
    { rules := .new .default
      processCache := .new (.new 1 Nat.one_pos)
      prompts := .new (.new 1 Nat.one_pos 60)
      dns := .new (.new 1 Nat.one_pos 60)
      recent := .new (.new 1 1 Nat.one_pos Nat.one_pos) }
    (.new 1 Nat.one_pos 60) (.new .new) (.new []) 0

/-- A connect of the process 7 to port 443 of 1.2.3.4. -/
def curlConnect : PipelineStep :=
  .connect (some (sockaddrMemory ⟨1, 2, 3, 4⟩ 443)) 30064771079 0 true

/-- A connect that prompts, the answer allow once, the connect again and its packet. -/
def curlPacketRun : List PipelineStep :=
  [curlConnect, .poll (.at 0) curlReads, .insert 0 0, .record, .answer 1 1 1 .allow .once,
    curlConnect, .poll (.at 2) curlReads, .insert 2 0, .record, .recv (synPacket 1), .attempt 1]

/-- The packet of `curlPacketRun` is accepted because of the answer. -/
theorem accepted_packets_have_consent_curlPacketRun :
    AcceptedAt curlStart curlPacketRun 10 (synPacket 1) 3 ∧
      ∃ decided < 10, ∃ event clock reads policy,
        EventDecidedAt curlStart curlPacketRun decided event clock reads policy ∧
          (decide clock reads event policy).2.attributed = true := by
  have haccepted : AcceptedAt curlStart curlPacketRun 10 (synPacket 1) 3 :=
    ⟨1, rfl, by decide, by decide⟩
  refine ⟨haccepted, ?_⟩
  obtain ⟨decided, _, _, _, hconsent⟩ := accepted_packets_have_consent (.new .default)
    (.new (.new 1 Nat.one_pos)) (.new (.new 1 Nat.one_pos 60))
    (.new (.new 1 1 Nat.one_pos Nat.one_pos)) 1 Nat.one_pos 60 1 Nat.one_pos 60 (.new .new)
    (.new []) 0 curlPacketRun
  obtain ⟨hbefore, event, clock, reads, policy, identity, cache, hdecided, _, hidentity, _⟩ :=
    hconsent 10 _ _ haccepted
  refine ⟨decided 10, hbefore, event, clock, reads, policy, hdecided, ?_⟩
  rw [decide_of_attributed clock reads event policy hidentity]
  exact attributed_decideAttributed ..

end MainResults

end InterFire
