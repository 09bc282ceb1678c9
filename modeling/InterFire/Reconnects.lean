import InterFire.AuditStreams

/-!
# Replaced subscriptions

A thread that leaves `run_subscriber` without having been told of a replacement removes its id from
the registry (`crates/interfire-daemon/src/audit.rs`), whichever thread the id is registered for. The
notice of a replacement is dropped when the channel is full, and comes after the records that are
already in the channel, so a thread can end without having read it.

`earlier_exit_removes_replacement` is a run in which the new registration is removed by the thread of
the old one. `replacement_kept_while_orderly` is about the runs in which no subscription is made and
no write fails while an earlier thread of the id can still call back: there a registration is removed
only for its own sake. The invariant is `AuditStreams.Told`.
-/

set_option autoImplicit false
set_option relaxedAutoImplicit false

namespace InterFire

/-- A replacement is on its way to a thread. -/
def Subscriber.Notified (thread : Subscriber) : Prop :=
  .replaced ∈ thread.current.toList ++ thread.queue

instance (thread : Subscriber) : Decidable thread.Notified :=
  inferInstanceAs (Decidable (_ ∈ _))

instance (thread : Subscriber) : Decidable thread.Writing :=
  decidable_of_iff (thread.phase = .running ∧
      (thread.backlog ≠ [] ∨ (thread.current.bind Fanout.record?).isSome)) <| by
    cases hcurrent : thread.current with
    | none => simp [Subscriber.Writing, hcurrent]
    | some event => cases event <;> simp [Subscriber.Writing, hcurrent, Fanout.record?]

namespace AuditStreams

/-- No earlier thread of an id can call back after the step. A subscription is made when every thread
of the id that has not ended runs, and either is told of the replacement by this subscription or is
about to read of one; and no write fails while another thread is registered for the id. -/
def Orderly (streams : AuditStreams) : StreamOp → Prop
  | .append _ _ => True
  | .subscribe id _ confirmed =>
    ValidSubscriber id ∧ confirmed →
      ∀ entry ∈ streams.threads.zipIdx, entry.1.id = id → entry.1.phase ≠ .ended →
        entry.1.phase = .running ∧
          (streams.connected entry.2 entry.1 ∧ entry.1.accepts ∨ entry.1.Notified)
  | .advance moved ok =>
    ∀ thread ∈ streams.threads[moved]?, thread.Writing → ok = false →
      ∀ sender ∈ streams.subscribers.get thread.id, sender = moved

instance (streams : AuditStreams) (op : StreamOp) : Decidable (streams.Orderly op) :=
  match op with
  | .append _ _ => isTrue trivial
  | .subscribe _ _ _ => inferInstanceAs (Decidable (_ → _))
  | .advance _ _ => inferInstanceAs (Decidable (∀ _ ∈ _, _ → _ → ∀ _ ∈ _, _))

/-- Every step of a run is orderly when it is taken. -/
def OrderlyRun (streams : AuditStreams) : List StreamOp → Prop
  | [] => True
  | op :: rest => streams.Orderly op ∧ (streams.step op).OrderlyRun rest

instance decidableOrderlyRun (streams : AuditStreams) :
    (ops : List StreamOp) → Decidable (streams.OrderlyRun ops)
  | [] => isTrue trivial
  | op :: rest =>
    have := decidableOrderlyRun (streams.step op) rest
    inferInstanceAs (Decidable (_ ∧ _))

/-- The reasons of its own for which a registration may be removed by a step: its channel is full or
has no receiver, its id is subscribed to again, or its thread calls back after a failed write. -/
def OwnReason (streams : AuditStreams) (id : String) (sender : ℕ) : StreamOp → Prop
  | .append _ _ => ∃ thread, streams.threads[sender]? = some thread ∧ ¬ thread.accepts
  | .subscribe other _ _ => other = id
  | .advance moved _ => moved = sender ∧
      ∃ thread, streams.threads[sender]? = some thread ∧ thread.phase = .exiting true

/-- Every thread that has not ended, while another one is registered for its id, is about to read of
the replacement; and no registered thread has found its channel closed. -/
structure Told (streams : AuditStreams) : Prop where
  replaced : ∀ index thread sender, streams.threads[index]? = some thread →
    streams.subscribers.get thread.id = some sender → sender ≠ index → thread.phase ≠ .ended →
    thread.phase = .running ∧ thread.Notified
  registered : ∀ index thread, streams.threads[index]? = some thread →
    streams.subscribers.get thread.id = some index → thread.phase ≠ .exiting false

theorem told_start (log : AuditLog) : (start log).Told where
  replaced := by
    intro index thread sender hthread
    cases hthread
  registered := by
    intro index thread hthread
    cases hthread

variable {streams : AuditStreams}

/-- The threads before an append. -/
theorem exists_of_getElem?_append {file : Option (List Char)} {message : String} {index : ℕ}
    {next : Subscriber} (hnext : (streams.append file message).threads[index]? = some next) :
    ∃ thread, streams.threads[index]? = some thread := by
  have hlt := (List.getElem?_eq_some_iff.mp hnext).1
  have hlength : (streams.append file message).threads.length = streams.threads.length :=
    List.length_mapIdx
  exact ⟨_, List.getElem?_eq_getElem (hlength ▸ hlt)⟩

/-- The threads before a step of one of them. -/
theorem exists_of_getElem?_advance {moved : ℕ} {ok : Bool} {index : ℕ} {next : Subscriber}
    (hnext : (streams.advance moved ok).threads[index]? = some next) :
    ∃ thread, streams.threads[index]? = some thread := by
  have hlt := (List.getElem?_eq_some_iff.mp hnext).1
  have hlength : (streams.advance moved ok).threads.length = streams.threads.length :=
    List.length_modify _ _ _
  exact ⟨_, List.getElem?_eq_getElem (hlength ▸ hlt)⟩

/-- The threads before a subscription, and its own one. -/
theorem exists_of_getElem?_subscribe {id : String} {backlog : List BoundedLogRecord} {index : ℕ}
    {next : Subscriber} (hnext : (streams.subscribe id backlog).threads[index]? = some next) :
    (∃ thread, streams.threads[index]? = some thread) ∨
      index = streams.threads.length ∧ next = newThread id backlog := by
  rcases lt_trichotomy index streams.threads.length with hlt | rfl | hgt
  · exact .inl ⟨_, List.getElem?_eq_getElem hlt⟩
  · refine .inr ⟨rfl, ?_⟩
    exact Option.some.inj (hnext.symm.trans (getElem?_subscribe_length streams id backlog))
  · have hlt := (List.getElem?_eq_some_iff.mp hnext).1
    have hlength : (streams.subscribe id backlog).threads.length = streams.threads.length + 1 := by
      simp [subscribe]
    omega

theorem notified_trySend {thread : Subscriber} (hnotified : thread.Notified) (event : Fanout) :
    (thread.trySend event).Notified := by
  rw [Subscriber.trySend]
  split_ifs
  · rw [Subscriber.Notified, ← List.append_assoc]
    exact List.mem_append_left _ hnotified
  · exact hnotified

/-- A notice of replacement that the channel takes is on its way. Assumes: the channel takes it. -/
theorem notified_trySend_replaced {thread : Subscriber} (haccepts : thread.accepts) :
    (thread.trySend .replaced).Notified := by
  rw [Subscriber.trySend_of_accepts haccepts, Subscriber.Notified]
  simp

theorem get_of_get_append {file : Option (List Char)} {message id : String} {sender : ℕ}
    (hget : (streams.append file message).subscribers.get id = some sender) :
    streams.subscribers.get id = some sender := by
  have hkept : (streams.subscribers.retain _).get id = some sender := hget
  rw [FiniteMap.get_retain, Option.filter_eq_some_iff] at hkept
  exact hkept.1

theorem Told.append (htold : streams.Told) (file : Option (List Char)) (message : String) :
    (streams.append file message).Told := by
  have hkept : ∀ (index : ℕ) (next : Subscriber),
      (streams.append file message).threads[index]? = some next →
      ∃ thread : Subscriber, streams.threads[index]? = some thread ∧ next.id = thread.id ∧
        next.phase = thread.phase ∧ (thread.Notified → next.Notified) := by
    intro index next hnext
    obtain ⟨thread, hthread⟩ := exists_of_getElem?_append hnext
    obtain rfl := Option.some.inj ((getElem?_append hthread file message).symm.trans hnext)
    refine ⟨thread, hthread, ?_⟩
    split_ifs
    · exact ⟨Subscriber.trySend_id _ _, Subscriber.trySend_phase _ _,
        fun hnotified ↦ notified_trySend hnotified _⟩
    · exact ⟨rfl, rfl, id⟩
  refine ⟨fun index next sender hnext hget hother hphase ↦ ?_, fun index next hnext hget ↦ ?_⟩
  · obtain ⟨thread, hthread, hid, hsame, hnotified⟩ := hkept index next hnext
    rw [hid] at hget
    rw [hsame] at hphase ⊢
    obtain ⟨hrunning, htoldOf⟩ :=
      htold.replaced index thread sender hthread (get_of_get_append hget) hother hphase
    exact ⟨hrunning, hnotified htoldOf⟩
  · obtain ⟨thread, hthread, hid, hsame, _⟩ := hkept index next hnext
    rw [hid] at hget
    rw [hsame]
    exact htold.registered index thread hthread (get_of_get_append hget)

theorem Told.subscribe (htold : streams.Told) {id : String} {since : UInt64} {confirmed : Bool}
    (haccepted : ValidSubscriber id ∧ confirmed)
    (horderly : streams.Orderly (.subscribe id since confirmed))
    (backlog : List BoundedLogRecord) : (streams.subscribe id backlog).Told := by
  refine ⟨fun index next sender hnext hget hother hphase ↦ ?_, fun index next hnext hget ↦ ?_⟩
  · rcases exists_of_getElem?_subscribe hnext with ⟨thread, hthread⟩ | ⟨rfl, rfl⟩
    · obtain rfl := Option.some.inj ((getElem?_subscribe hthread id backlog).symm.trans hnext)
      by_cases hid : thread.id = id
      · -- The thread is told now, or has been told before.
        have hentry : (thread, index) ∈ streams.threads.zipIdx :=
          List.mem_zipIdx_iff_getElem?.mpr hthread
        split_ifs at hphase ⊢ with hprevious
        · rw [Subscriber.trySend_phase] at hphase ⊢
          obtain ⟨hrunning, ⟨_, haccepts⟩ | hnotified⟩ :=
            horderly haccepted (thread, index) hentry hid hphase
          · exact ⟨hrunning, notified_trySend_replaced haccepts⟩
          · exact ⟨hrunning, notified_trySend hnotified _⟩
        · obtain ⟨hrunning, ⟨hconnected, _⟩ | hnotified⟩ :=
            horderly haccepted (thread, index) hentry hid hphase
          · rw [connected_iff, hid] at hconnected
            exact absurd hconnected hprevious
          · exact ⟨hrunning, hnotified⟩
      · have hunsent : ¬ streams.subscribers.get id = some index := by
          intro hprevious
          obtain ⟨previous, hsame, hpreviousId⟩ := streams.owned id index hprevious
          obtain rfl := Option.some.inj (hthread.symm.trans hsame)
          exact hid hpreviousId
        rw [if_neg hunsent] at hget hphase ⊢
        have hbefore : streams.subscribers.get thread.id = some sender := by
          have hinserted : (streams.subscribers.insert id _).get thread.id = some sender := hget
          rwa [FiniteMap.get_insert_of_ne _ hid] at hinserted
        exact htold.replaced index thread sender hthread hbefore hother hphase
    · have hown : (streams.subscribe id backlog).subscribers.get id =
          some streams.threads.length := FiniteMap.get_insert_self _ _ _
      exact absurd (Option.some.inj (hget.symm.trans hown)) hother
  · rcases exists_of_getElem?_subscribe hnext with ⟨thread, hthread⟩ | ⟨rfl, rfl⟩
    · obtain rfl := Option.some.inj ((getElem?_subscribe hthread id backlog).symm.trans hnext)
      have hbefore := ((get_subscribe_iff hthread id _ backlog).mp hget).2
      split_ifs at hbefore ⊢
      · rw [Subscriber.trySend_id] at hbefore
        rw [Subscriber.trySend_phase]
        exact htold.registered index thread hthread hbefore
      · exact htold.registered index thread hthread hbefore
    · exact nofun

/-- A thread that is about to read of a replacement goes on to, or has read of it. Assumes: it runs,
and its write does not fail. -/
theorem notified_of_moves {thread next : Subscriber} {connected ok : Bool}
    (hmoves : thread.Moves connected ok next) (hrunning : thread.phase = .running)
    (hnotified : thread.Notified) (hwrites : ¬ (thread.Writing ∧ ok = false))
    (hphase : next.phase ≠ .ended) : next.phase = .running ∧ next.Notified := by
  cases hmoves with
  | finish | replaced => exact absurd rfl hphase
  | fail hwriting hok => exact absurd ⟨hwriting, hok⟩ hwrites
  | backlog | wait => exact ⟨hrunning, hnotified⟩
  | record hrunning hbacklog hcurrent =>
    refine ⟨hrunning, ?_⟩
    rw [Subscriber.Notified, hcurrent] at hnotified
    simpa [Subscriber.Notified] using hnotified
  | receive hrunning hbacklog hcurrent hqueue =>
    refine ⟨hrunning, ?_⟩
    rw [Subscriber.Notified, hcurrent, hqueue] at hnotified
    exact hnotified
  | closed hrunning hbacklog hcurrent hqueue =>
    rw [Subscriber.Notified, hcurrent, hqueue] at hnotified
    cases hnotified

/-- Only a thread whose channel has no sender finds it closed. -/
theorem phase_ne_of_moves {thread next : Subscriber} {ok : Bool}
    (hmoves : thread.Moves true ok next) (hphase : thread.phase ≠ .exiting false) :
    next.phase ≠ .exiting false := by
  cases hmoves with
  | finish | fail | replaced => exact nofun
  | backlog | record | receive | wait => exact hphase
  | closed _ _ _ _ hconnected => cases hconnected

theorem Told.advance (htold : streams.Told) {moved : ℕ} {ok : Bool}
    (horderly : streams.Orderly (.advance moved ok)) : (streams.advance moved ok).Told := by
  refine ⟨fun index next sender hnext hget hother hphase ↦ ?_, fun index next hnext hget ↦ ?_⟩
  · obtain ⟨thread, hthread⟩ := exists_of_getElem?_advance hnext
    obtain rfl := Option.some.inj ((getElem?_advance hthread moved ok).symm.trans hnext)
    have hbefore := streams.get_of_get_onExit hget
    split_ifs at hbefore hphase ⊢ with hmoved
    · subst hmoved
      rw [Subscriber.advance_id] at hbefore
      have hmoves := thread.moves_advance (streams.connected moved thread) ok
      have hlive : thread.phase ≠ .ended := by
        intro hended
        exact hphase (by simp [Subscriber.advance, hended])
      obtain ⟨hrunning, hnotified⟩ :=
        htold.replaced moved thread sender hthread hbefore hother hlive
      refine notified_of_moves hmoves hrunning hnotified ?_ hphase
      rintro ⟨hwriting, hok⟩
      exact hother (horderly thread hthread hwriting hok sender hbefore)
    · exact htold.replaced index thread sender hthread hbefore hother hphase
  · obtain ⟨thread, hthread⟩ := exists_of_getElem?_advance hnext
    obtain rfl := Option.some.inj ((getElem?_advance hthread moved ok).symm.trans hnext)
    have hbefore := streams.get_of_get_onExit hget
    split_ifs at hbefore ⊢ with hmoved
    · subst hmoved
      rw [Subscriber.advance_id] at hbefore
      have hmoves := thread.moves_advance (streams.connected moved thread) ok
      rw [connected_iff.mpr hbefore] at hmoves ⊢
      exact phase_ne_of_moves hmoves (htold.registered moved thread hthread hbefore)
    · exact htold.registered index thread hthread hbefore

theorem Told.step (htold : streams.Told) {op : StreamOp} (horderly : streams.Orderly op) :
    (streams.step op).Told := by
  cases op with
  | append message file => exact htold.append file message
  | subscribe id since confirmed =>
    rw [AuditStreams.step]
    rcases streams.auditSubscribe_cases id since confirmed with ⟨_, hstep⟩ | ⟨haccepted, hstep⟩
    · rwa [hstep]
    · rw [hstep]
      exact htold.subscribe haccepted horderly _
  | advance moved ok => exact htold.advance horderly

theorem Told.after (htold : streams.Told) {ops : List StreamOp}
    (horderly : streams.OrderlyRun ops) : (streams.after ops).Told := by
  induction ops generalizing streams with
  | nil => exact htold
  | cons op rest ih => exact ih (htold.step horderly.1) horderly.2

/-- A registration is removed for a reason of its own. Assumes: every thread that is not registered
for its id is about to read of the replacement. -/
theorem Told.ownReason (htold : streams.Told) {op : StreamOp} {id : String} {sender : ℕ}
    (hget : streams.subscribers.get id = some sender)
    (hremoved : (streams.step op).subscribers.get id ≠ some sender) :
    streams.OwnReason id sender op := by
  obtain ⟨thread, hthread, rfl⟩ := streams.owned id sender hget
  cases op with
  | append message file =>
    refine ⟨thread, hthread, fun haccepts ↦ hremoved ?_⟩
    exact (get_append_iff hthread file message thread.id).mpr ⟨hget, haccepts⟩
  | subscribe other since confirmed =>
    by_contra hother
    rw [AuditStreams.step] at hremoved
    rcases streams.auditSubscribe_cases other since confirmed with ⟨_, hstep⟩ | ⟨_, hstep⟩
    · rw [hstep] at hremoved
      exact hremoved hget
    · rw [hstep] at hremoved
      exact hremoved ((get_subscribe_iff hthread _ _ _).mpr ⟨Ne.symm hother, hget⟩)
  | advance moved ok =>
    have hexit : (streams.onExit moved).subscribers.get thread.id ≠ some sender := hremoved
    rw [onExit] at hexit
    split at hexit
    · next exited failed _ _ _ _ hmoved =>
      rw [removeSubscriber, FiniteMap.get_remove] at hexit
      split_ifs at hexit with hid
      · by_cases hsame : sender = moved
        · subst hsame
          obtain rfl := Option.some.inj (hmoved.symm.trans hthread)
          refine ⟨rfl, _, hthread, ?_⟩
          have hphase := htold.registered sender _ hthread hget
          cases failed with
          | true => rfl
          | false => exact absurd rfl hphase
        · rw [hid] at hget
          obtain ⟨hrunning, _⟩ := htold.replaced moved _ sender hmoved hget hsame (by simp)
          cases hrunning
      · exact absurd hget hexit
    · exact absurd hget hexit

end AuditStreams

/-- While no earlier thread of an id can call back, a registration is removed only for a reason of
its own: its channel is full or has no receiver, its own thread has failed to write, or its id is
subscribed to again. Assumes: every step of the run is orderly when it is taken. -/
theorem replacement_kept_while_orderly (log : AuditLog) {ops : List StreamOp}
    (horderly : (AuditStreams.start log).OrderlyRun ops) (op : StreamOp) (id : String)
    (sender : ℕ) :
    let streams := (AuditStreams.start log).after ops
    streams.subscribers.get id = some sender →
      (streams.step op).subscribers.get id ≠ some sender → streams.OwnReason id sender op := by
  intro streams hget hremoved
  exact ((AuditStreams.told_start log).after horderly).ownReason hget hremoved

/-- A subscription that is replaced, with a record in its channel before the notice. -/
def replacedRun : List StreamOp :=
  [.subscribe "ui" 0 true, .append "connect" none, .subscribe "ui" 0 true, .advance 0 true]

theorem replacedRun_keeps_replacement :
    let streams := (AuditStreams.start emptyLog).after replacedRun
    (AuditStreams.start emptyLog).OrderlyRun replacedRun ∧
      streams.subscribers.get "ui" = some 1 ∧
      ∀ op, (streams.step op).subscribers.get "ui" ≠ some 1 → streams.OwnReason "ui" 1 op :=
  have horderly : (AuditStreams.start emptyLog).OrderlyRun replacedRun := by decide
  have hget : ((AuditStreams.start emptyLog).after replacedRun).subscribers.get "ui" = some 1 := by
    decide
  ⟨horderly, hget, fun op ↦ replacement_kept_while_orderly emptyLog horderly op "ui" 1 hget⟩

/-- A thread that is replaced fails to write before it has read of the replacement. Its callback
removes the registration of the thread that replaced it, which runs and has room in its channel. -/
theorem earlier_exit_removes_replacement :
    let streams := (AuditStreams.start emptyLog).after (replacedRun ++ [.advance 0 false])
    streams.subscribers.get "ui" = some 1 ∧
      (streams.step (.advance 0 true)).subscribers.get "ui" = none ∧
      streams.threads[1]?.map (fun thread ↦ (thread.phase, thread.accepts)) =
        some (.running, true) ∧
      ¬ streams.OwnReason "ui" 1 (.advance 0 true) := by
  refine ⟨by decide, by decide, by decide, ?_⟩
  rintro ⟨hsame, _⟩
  cases hsame

end InterFire
