import InterFire.Authority
import InterFire.Library.Run
import InterFire.Requests

/-!
# Notes of names and the events after them

`dns_note` holds the lock of the name cache while `DnsCache::observe` adds the lifetime of the name
to the clock. The lifetime is any unsigned 64-bit number of seconds, and the addition panics when
the platform cannot represent the sum. The panic poisons the lock, and `handle_event` returns early
at a poisoned lock.

A `NotedOp` is a note or an event. `panicked_iff` says which notes panic, and
`notes_unharmful_iff` what follows for a run: every note returns, and every event is decided and
recorded, exactly when the lifetimes of the accepted notes can all be represented.
-/

set_option autoImplicit false
set_option relaxedAutoImplicit false

namespace InterFire

/-! ### Notes -/

/-- The checks that a note passes before it takes the lock. -/
structure AcceptedNote (peerMayMutate : Bool) (hostname ipv4 : String) : Prop where
  peer : peerMayMutate = true
  hostname_ne : hostname ≠ ""
  separator : '|' ∉ hostname.toList
  address : (dnsNoteKey ipv4).isSome

/-- The lifetime of a note. -/
def noteTtl (ttlSecs : Option UInt64) (defaultTtl : Duration) : Duration :=
  (ttlSecs.map fun seconds ↦ Duration.fromSecs seconds.toNat).getD defaultTtl

/-- The clock can represent the instant at which the name expires. -/
def Representable (stampNow : Instant) (ttlSecs : Option UInt64) (defaultTtl : Duration) : Prop :=
  stampNow + noteTtl ttlSecs defaultTtl < Instant.limit

instance (stampNow : Instant) (ttlSecs : Option UInt64) (defaultTtl : Duration) :
    Decidable (Representable stampNow ttlSecs defaultTtl) :=
  inferInstanceAs (Decidable (_ < _))

section Notes

variable {peerMayMutate : Bool} {expireNow stampNow : Instant} {hostname ipv4 : String}
  {ttlSecs : Option UInt64}

/-- An observation returns exactly when the clock can represent the expiry. -/
theorem isSome_observe_iff (cache : DnsCache) (expireNow stampNow : Instant) (hostname : String)
    (ipv4 : UInt32) (ttlSecs : Option UInt64) :
    (cache.observe expireNow stampNow hostname ipv4
        (ttlSecs.map fun seconds ↦ Duration.fromSecs seconds.toNat)).isSome ↔
      Representable stampNow ttlSecs cache.defaultTtl := by
  have hdefault : (cache.expire expireNow).defaultTtl = cache.defaultTtl := rfl
  unfold DnsCache.observe Representable noteTtl Instant.checkedAdd
  simp only [hdefault, Option.bind_eq_bind]
  split_ifs <;> simp_all

theorem defaultTtl_observe {cache after : DnsCache} {ipv4 : UInt32} {ttl : Option Duration}
    (hobserve : cache.observe expireNow stampNow hostname ipv4 ttl = some after) :
    after.defaultTtl = cache.defaultTtl := by
  unfold DnsCache.observe at hobserve
  simp only [Option.bind_eq_bind, Option.bind_eq_some_iff] at hobserve
  obtain ⟨expiresAt, _, hresult⟩ := hobserve
  split_ifs at hresult <;> (obtain rfl := Option.some.inj hresult; rfl)

/-- A note either leaves the lock as it is, or has passed its checks: then it stores the
observation, or panics and poisons the lock. -/
theorem dnsNote_cases (peerMayMutate : Bool) (expireNow stampNow : Instant) (hostname ipv4 : String)
    (ttlSecs : Option UInt64) (dns : Mutex DnsCache) :
    ((¬ AcceptedNote peerMayMutate hostname ipv4 ∨ dns.poisoned = true) ∧ ∃ code,
      dnsNote peerMayMutate expireNow stampNow hostname ipv4 ttlSecs dns = (dns, .error code)) ∨
    (AcceptedNote peerMayMutate hostname ipv4 ∧ dns.poisoned = false ∧
      ((Representable stampNow ttlSecs dns.value.defaultTtl ∧ ∃ cache,
        cache.defaultTtl = dns.value.defaultTtl ∧
        dnsNote peerMayMutate expireNow stampNow hostname ipv4 ttlSecs dns =
          (dns.store cache, .pong)) ∨
      (¬ Representable stampNow ttlSecs dns.value.defaultTtl ∧
        dnsNote peerMayMutate expireNow stampNow hostname ipv4 ttlSecs dns =
          ({ dns with poisoned := true }, .panicked)))) := by
  unfold dnsNote
  split_ifs with hpeer hhostname
  · exact .inl ⟨.inl fun haccepted ↦ by simp [haccepted.peer] at hpeer, _, rfl⟩
  · refine .inl ⟨.inl fun haccepted ↦ ?_, _, rfl⟩
    exact hhostname.elim haccepted.hostname_ne haccepted.separator
  · cases haddress : dnsNoteKey ipv4 with
    | none =>
      exact .inl ⟨.inl fun haccepted ↦ by simpa [haddress] using haccepted.address, _, rfl⟩
    | some key =>
      have haccepted : AcceptedNote peerMayMutate hostname ipv4 :=
        ⟨by simpa using hpeer, fun hempty ↦ hhostname (.inl hempty),
          fun hmem ↦ hhostname (.inr hmem), by simp [haddress]⟩
      cases hpoisoned : dns.poisoned with
      | true => exact .inl ⟨.inr rfl, "lock_poisoned", by simp [Mutex.lock, hpoisoned]⟩
      | false =>
        refine .inr ⟨haccepted, rfl, ?_⟩
        have hiff := isSome_observe_iff dns.value expireNow stampNow hostname key ttlSecs
        simp only [Mutex.lock_eq hpoisoned]
        split
        · next cache hobserve =>
          rw [hobserve] at hiff
          exact .inl ⟨hiff.mp rfl, cache, defaultTtl_observe hobserve, rfl⟩
        · next hobserve =>
          rw [hobserve] at hiff
          refine .inr ⟨fun hfits ↦ ?_, rfl⟩
          cases hiff.mpr hfits

/-- A note panics exactly when it is accepted and the clock cannot represent the expiry. Assumes:
the lock is not poisoned. -/
theorem panicked_iff (dns : Mutex DnsCache) (hclean : dns.poisoned = false) :
    (dnsNote peerMayMutate expireNow stampNow hostname ipv4 ttlSecs dns).2 = .panicked ↔
      AcceptedNote peerMayMutate hostname ipv4 ∧
        ¬ Representable stampNow ttlSecs dns.value.defaultTtl := by
  rcases dnsNote_cases peerMayMutate expireNow stampNow hostname ipv4 ttlSecs dns with
    ⟨hrefused | hpoisoned, code, hnote⟩ | ⟨haccepted, _, ⟨hfits, cache, _, hnote⟩ | ⟨hfits, hnote⟩⟩
  · simp [hnote, hrefused]
  · rw [hclean] at hpoisoned
    cases hpoisoned
  · simp [hnote, hfits]
  · simp [hnote, hfits, haccepted]

end Notes

/-! ### Notes and events -/

/-- A note, as the frame of a peer, or an event. -/
inductive NotedOp
  | note (peerMayMutate : Bool) (expireNow stampNow : Instant) (frame : List Char)
  | event (clock : DecideClock) (expireNow stampNow : Instant) (reads : ProcReads)
      (connect : TcpConnectEvent)

/-- No lock of the verdict path is poisoned. -/
structure Shared.Clean (shared : Shared) : Prop where
  rules : shared.rules.poisoned = false
  processCache : shared.processCache.poisoned = false
  prompts : shared.prompts.poisoned = false
  dns : shared.dns.poisoned = false
  recent : shared.recent.poisoned = false
  pending : shared.pending.poisoned = false
  stats : shared.stats.poisoned = false
  audit : shared.audit.poisoned = false

/-- The collections that a decision finds under the locks. -/
def Shared.policyState (shared : Shared) : PolicyState :=
  { rules := shared.rules.value
    cache := shared.processCache.value
    prompts := shared.prompts.value
    dns := shared.dns.value
    recent := shared.recent.value }

namespace NotedOp

def step (shared : Shared) : NotedOp → Shared
  | .note peerMayMutate expireNow stampNow frame =>
    match Request.parse frame with
    | .ok (.dnsNote hostname ipv4 ttlSecs) =>
      { shared with
        dns := (dnsNote peerMayMutate expireNow stampNow hostname ipv4 ttlSecs shared.dns).1 }
    | _ => shared
  | .event clock expireNow stampNow reads connect =>
    Observe.handleEvent clock expireNow stampNow reads connect shared

/-- The note returns and leaves its lock usable; the event is decided, its verdict is stored, and it
is counted and recorded. -/
def Unharmed (before : Shared) : NotedOp → Prop
  | .note peerMayMutate expireNow stampNow frame =>
    ∀ hostname ipv4 ttlSecs, Request.parse frame = .ok (.dnsNote hostname ipv4 ttlSecs) →
      (dnsNote peerMayMutate expireNow stampNow hostname ipv4 ttlSecs before.dns).2 ≠ .panicked ∧
      (dnsNote peerMayMutate expireNow stampNow hostname ipv4 ttlSecs before.dns).1.poisoned = false
  | .event clock expireNow stampNow reads connect =>
    ∃ decided decision,
      Observe.decideSection clock reads connect before = some (decided, decision) ∧
      let after := Observe.handleEvent clock expireNow stampNow reads connect before
      after.pending.value = before.pending.value.insert expireNow stampNow decision.key
        decision.packetVerdict ∧
      after.stats.value = decision.stats.elim before.stats.value.recordUnattributedDeny
        before.stats.value.record ∧
      after.audit.value = before.audit.value ++ [Observe.auditMessage decision]

/-- An accepted note has a lifetime that the clock can represent. -/
def Fits (defaultTtl : Duration) : NotedOp → Prop
  | .note peerMayMutate _ stampNow frame =>
    ∀ hostname ipv4 ttlSecs, Request.parse frame = .ok (.dnsNote hostname ipv4 ttlSecs) →
      AcceptedNote peerMayMutate hostname ipv4 → Representable stampNow ttlSecs defaultTtl
  | .event .. => True

/-- The locks of the verdict path are usable, and the cache has its lifetime by default. -/
def Usable (defaultTtl : Duration) (shared : Shared) : Prop :=
  shared.Clean ∧ shared.dns.value.defaultTtl = defaultTtl

section Steps

variable {shared : Shared} {defaultTtl : Duration}

theorem decideSection_of_clean (hclean : shared.Clean) (clock : DecideClock) (reads : ProcReads)
    (connect : TcpConnectEvent) :
    Observe.decideSection clock reads connect shared = some
      ({ shared with
          toPolicyLocks := shared.toPolicyLocks.store
            (Policy.decide clock reads connect shared.policyState).1 },
        (Policy.decide clock reads connect shared.policyState).2) := by
  simp [Observe.decideSection, PolicyLocks.lock, Mutex.lock_eq hclean.rules,
    Mutex.lock_eq hclean.processCache, Mutex.lock_eq hclean.prompts, Mutex.lock_eq hclean.dns,
    Mutex.lock_eq hclean.recent, Shared.policyState]

/-- Every section of the handler of an event does its work. Assumes: no lock is poisoned. -/
theorem handleEvent_of_clean (hclean : shared.Clean) (clock : DecideClock)
    (expireNow stampNow : Instant) (reads : ProcReads) (connect : TcpConnectEvent) :
    let decided := Policy.decide clock reads connect shared.policyState
    Observe.handleEvent clock expireNow stampNow reads connect shared =
      { toPolicyLocks := shared.toPolicyLocks.store decided.1
        pending := shared.pending.store (shared.pending.value.insert expireNow stampNow
          decided.2.key decided.2.packetVerdict)
        stats := shared.stats.store (decided.2.stats.elim
          shared.stats.value.recordUnattributedDeny shared.stats.value.record)
        audit := shared.audit.store (shared.audit.value ++
          [Observe.auditMessage decided.2]) } := by
  intro decided
  rw [Observe.handleEvent, decideSection_of_clean hclean]
  simp only [Observe.pendingSection, Observe.statsSection, Observe.auditSection,
    Mutex.lock_eq hclean.pending, Mutex.lock_eq hclean.stats, Mutex.lock_eq hclean.audit]
  cases decided.2.stats <;> rfl

/-- A decision keeps the lifetime by default. -/
theorem defaultTtl_decide (clock : DecideClock) (reads : ProcReads) (connect : TcpConnectEvent)
    (state : PolicyState) :
    (Policy.decide clock reads connect state).1.dns.defaultTtl = state.dns.defaultTtl := by
  unfold Policy.decide
  split
  · unfold Policy.decideAttributed
    dsimp only
    split_ifs <;> rfl
  · rfl

/-- An event is decided and recorded, and keeps the locks usable. Assumes: they are. -/
theorem unharmed_event (husable : Usable defaultTtl shared) (clock : DecideClock)
    (expireNow stampNow : Instant) (reads : ProcReads) (connect : TcpConnectEvent) :
    (event clock expireNow stampNow reads connect).Unharmed shared ∧
      Usable defaultTtl (step shared (.event clock expireNow stampNow reads connect)) := by
  obtain ⟨hclean, hdefault⟩ := husable
  have hhandle := handleEvent_of_clean hclean clock expireNow stampNow reads connect
  refine ⟨⟨_, _, decideSection_of_clean hclean clock reads connect, ?_⟩, ?_⟩
  · rw [hhandle]
    exact ⟨rfl, rfl, rfl⟩
  · change Usable defaultTtl (Observe.handleEvent clock expireNow stampNow reads connect shared)
    rw [hhandle]
    refine ⟨⟨hclean.rules, hclean.processCache, hclean.prompts, hclean.dns, hclean.recent,
      hclean.pending, hclean.stats, hclean.audit⟩, ?_⟩
    exact (defaultTtl_decide clock reads connect _).trans hdefault

/-- A note whose frame is not one changes nothing. -/
theorem step_note_of_parse {peerMayMutate : Bool} {expireNow stampNow : Instant}
    {frame : List Char} {hostname ipv4 : String} {ttlSecs : Option UInt64}
    (hparse : Request.parse frame = .ok (.dnsNote hostname ipv4 ttlSecs)) :
    step shared (.note peerMayMutate expireNow stampNow frame) =
      { shared with
        dns := (dnsNote peerMayMutate expireNow stampNow hostname ipv4 ttlSecs shared.dns).1 } := by
  simp only [step, hparse]

/-- A note is harmless exactly when its lifetime fits. Assumes: the locks are usable. -/
theorem unharmed_note_iff (husable : Usable defaultTtl shared) (peerMayMutate : Bool)
    (expireNow stampNow : Instant) (frame : List Char) :
    (note peerMayMutate expireNow stampNow frame).Unharmed shared ↔
      (note peerMayMutate expireNow stampNow frame).Fits defaultTtl := by
  obtain ⟨hclean, rfl⟩ := husable
  simp only [Unharmed, Fits]
  refine forall₄_congr fun hostname ipv4 ttlSecs _ ↦ ?_
  have hpanics := @panicked_iff peerMayMutate expireNow stampNow hostname ipv4 ttlSecs shared.dns
    hclean.dns
  constructor
  · rintro ⟨hreturns, _⟩ haccepted
    by_contra hfits
    exact hreturns (hpanics.mpr ⟨haccepted, hfits⟩)
  · intro hfits
    have hreturns : (dnsNote peerMayMutate expireNow stampNow hostname ipv4 ttlSecs
        shared.dns).2 ≠ .panicked := by
      intro hpanicked
      obtain ⟨haccepted, hlong⟩ := hpanics.mp hpanicked
      exact hlong (hfits haccepted)
    refine ⟨hreturns, ?_⟩
    rcases dnsNote_cases peerMayMutate expireNow stampNow hostname ipv4 ttlSecs shared.dns with
      ⟨_, code, hnote⟩ | ⟨_, _, ⟨_, cache, _, hnote⟩ | ⟨_, hnote⟩⟩
    · rw [hnote]
      exact hclean.dns
    · rw [hnote]
      exact hclean.dns
    · rw [hnote] at hreturns
      exact absurd rfl hreturns

/-- A harmless note keeps the locks usable. Assumes: they are, and it is harmless. -/
theorem usable_note (husable : Usable defaultTtl shared) {peerMayMutate : Bool}
    {expireNow stampNow : Instant} {frame : List Char}
    (hunharmed : (note peerMayMutate expireNow stampNow frame).Unharmed shared) :
    Usable defaultTtl (step shared (.note peerMayMutate expireNow stampNow frame)) := by
  obtain ⟨hclean, hdefault⟩ := husable
  by_cases hparse : ∃ hostname ipv4 ttlSecs,
      Request.parse frame = .ok (.dnsNote hostname ipv4 ttlSecs)
  · obtain ⟨hostname, ipv4, ttlSecs, hparse⟩ := hparse
    obtain ⟨hreturns, hdns⟩ := hunharmed hostname ipv4 ttlSecs hparse
    rw [step_note_of_parse hparse]
    refine ⟨⟨hclean.rules, hclean.processCache, hclean.prompts, hdns, hclean.recent,
      hclean.pending, hclean.stats, hclean.audit⟩, ?_⟩
    rcases dnsNote_cases peerMayMutate expireNow stampNow hostname ipv4 ttlSecs shared.dns with
      ⟨_, code, hnote⟩ | ⟨_, _, ⟨_, cache, hcache, hnote⟩ | ⟨_, hnote⟩⟩
    · rw [hnote]
      exact hdefault
    · rw [hnote]
      exact hcache.trans hdefault
    · rw [hnote] at hreturns
      exact absurd rfl hreturns
  · have hsame : step shared (.note peerMayMutate expireNow stampNow frame) = shared := by
      simp only [step]
      split
      · next hostname ipv4 ttlSecs hnote => exact absurd ⟨_, _, _, hnote⟩ hparse
      · rfl
    rw [hsame]
    exact ⟨hclean, hdefault⟩

/-- An operation is harmless exactly when it fits, and a harmless one keeps the locks usable.
Assumes: they are. -/
theorem unharmed_iff (husable : Usable defaultTtl shared) (op : NotedOp) :
    (op.Unharmed shared ↔ op.Fits defaultTtl) ∧
      (op.Unharmed shared → Usable defaultTtl (step shared op)) := by
  cases op with
  | note peerMayMutate expireNow stampNow frame =>
    exact ⟨unharmed_note_iff husable peerMayMutate expireNow stampNow frame, usable_note husable⟩
  | event clock expireNow stampNow reads connect =>
    obtain ⟨hunharmed, hafter⟩ := unharmed_event husable clock expireNow stampNow reads connect
    exact ⟨iff_of_true hunharmed trivial, fun _ ↦ hafter⟩

end Steps

/-- In a run of notes and events every note returns and leaves its lock usable, and every event is
decided, stored, counted and recorded, exactly when the clock can represent the expiry of every
accepted note. Assumes: no lock is poisoned at the start. -/
theorem notes_unharmful_iff {shared : Shared} (hclean : shared.Clean) (ops : List NotedOp) :
    (∀ (index : ℕ) (op : NotedOp), ops[index]? = some op →
        op.Unharmed (Run.stateAt step shared ops index)) ↔
      ∀ op ∈ ops, op.Fits shared.dns.value.defaultTtl := by
  have hstart : Usable shared.dns.value.defaultTtl shared := ⟨hclean, rfl⟩
  constructor
  · intro hunharmed op hop
    obtain ⟨index, hindex⟩ := List.mem_iff_getElem?.mp hop
    have husable := Run.stateAt_invariant_of_steps step shared ops
      (Usable shared.dns.value.defaultTtl) hstart
      (fun state op husable hharmless ↦ (unharmed_iff husable op).2 hharmless)
      (fun before _ op hop ↦ hunharmed before op hop) index le_rfl
    exact (unharmed_iff husable op).1.mp (hunharmed index op hindex)
  · intro hfits index op hop
    have husable := Run.stateAt_invariant_of_steps step shared ops
      (Usable shared.dns.value.defaultTtl) hstart
      (fun state op husable hop ↦ (unharmed_iff husable op).2 ((unharmed_iff husable op).1.mpr hop))
      (fun before _ op hop ↦ hfits op (List.mem_of_getElem? hop)) index le_rfl
    exact (unharmed_iff husable op).1.mpr (hfits op (List.mem_of_getElem? hop))

/-! ### A daemon that has just started -/

/-- The locks of a daemon that has just started. -/
def started : Shared := (ControlState.startedWith .withDefaults).shared

theorem started_clean : started.Clean := ⟨rfl, rfl, rfl, rfl, rfl, rfl, rfl, rfl⟩

theorem parse_note_300 : Request.parse "v1 dns-note a.example 192.0.2.1 300".toList =
    .ok (.dnsNote "a.example" "192.0.2.1" (some 300)) := by decide

/-- A note for five minutes is harmless. -/
theorem note_300_unharmful : started.Clean ∧
    (note true 0 0 "v1 dns-note a.example 192.0.2.1 300".toList).Unharmed started := by
  refine ⟨started_clean, (notes_unharmful_iff started_clean
    [.note true 0 0 "v1 dns-note a.example 192.0.2.1 300".toList]).mpr ?_ 0 _ rfl⟩
  intro op hop
  obtain rfl := List.mem_singleton.mp hop
  intro hostname ipv4 ttlSecs hparse _
  obtain ⟨_, _, rfl⟩ := Request.dnsNote.inj (Except.ok.inj (parse_note_300.symm.trans hparse))
  decide

/-- The longest lifetime takes the daemon down: the note passes every check and poisons the lock,
and no event is decided after it. -/
theorem longest_note_poisons :
    Request.parse "v1 dns-note a.example 192.0.2.1 18446744073709551615".toList =
        .ok (.dnsNote "a.example" "192.0.2.1" (some 18446744073709551615)) ∧
      AcceptedNote true "a.example" "192.0.2.1" ∧
      (dnsNote true 0 0 "a.example" "192.0.2.1" (some 18446744073709551615) started.dns).2 =
        .panicked ∧
      ∀ clock reads connect, Observe.decideSection clock reads connect
        (step started (.note true 0 0
          "v1 dns-note a.example 192.0.2.1 18446744073709551615".toList)) = none := by
  have hparse : Request.parse "v1 dns-note a.example 192.0.2.1 18446744073709551615".toList =
      .ok (.dnsNote "a.example" "192.0.2.1" (some 18446744073709551615)) := by decide
  have haccepted : AcceptedNote true "a.example" "192.0.2.1" :=
    ⟨rfl, by decide, by decide, by decide⟩
  have hlong : ¬ Representable 0 (some 18446744073709551615) started.dns.value.defaultTtl := by
    decide
  have hpanics : (dnsNote true 0 0 "a.example" "192.0.2.1" (some 18446744073709551615)
      started.dns).2 = .panicked :=
    (panicked_iff started.dns started_clean.dns).mpr ⟨haccepted, hlong⟩
  refine ⟨hparse, haccepted, hpanics, fun clock reads connect ↦ ?_⟩
  rw [step_note_of_parse hparse]
  rcases dnsNote_cases true 0 0 "a.example" "192.0.2.1" (some 18446744073709551615)
    started.dns with ⟨_, code, hnote⟩ | ⟨_, _, ⟨_, cache, _, hnote⟩ | ⟨_, hnote⟩⟩
  · rw [hnote] at hpanics
    cases hpanics
  · rw [hnote] at hpanics
    cases hpanics
  · rw [hnote]
    rfl

end NotedOp

end InterFire
