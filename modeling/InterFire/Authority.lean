import InterFire.Dispatch
import InterFire.RefusedChanges

/-!
# Who changes what

A peer that may not mutate leaves everything that a request can change as it is, but for the
housekeeping that the two lists run (`Kept`, `kept_dispatch`), and a peer other than root leaves the
machine preference and the preference files of all other users (`KeepsOthers`,
`keepsOthers_dispatch`). `dispatch_within_authority` puts the two together.

The housekeeping of the prompts is not driven by time alone: it forgets the deny tokens of a queue
that has more of them than its capacity, so that a list request of any peer can drop them
(`list_forgets_deny_tokens`).
-/

set_option autoImplicit false
set_option relaxedAutoImplicit false

namespace InterFire

/-- What has expired by some instant may be gone; all else is as before. -/
def UpToTime (before after : Mutex PromptQueue) : Prop :=
  after = before ∨ ∃ now, after = before.store
    { before.value.expire now with onceDenies := before.value.onceDenies }

/-- The names that have expired by some instant may be gone; all else is as before. -/
def DnsUpToTime (before after : Mutex DnsCache) : Prop :=
  after = before ∨ ∃ now, after = before.store (before.value.expire now)

/-- Everything but the prompts is as before, up to names that expired. -/
structure KeptBesidesPrompts (before after : ControlState) : Prop where
  rules : after.shared.rules = before.shared.rules
  directory : after.directory = before.directory
  enforcement : after.enforcement = before.enforcement
  dns : DnsUpToTime before.shared.dns after.shared.dns

/-- Everything is as before, up to what expired. -/
structure KeptUpToTime (before after : ControlState) : Prop
    extends KeptBesidesPrompts before after where
  prompts : UpToTime before.shared.prompts after.shared.prompts

/-- Everything is as before, up to the housekeeping: what expired may be gone, and the deny tokens
are gone only when there were more of them than the capacity. -/
structure Kept (before after : ControlState) : Prop extends KeptBesidesPrompts before after where
  prompts : UpToExpiry before.shared.prompts after.shared.prompts
  denies : after.shared.prompts.value.onceDenies = before.shared.prompts.value.onceDenies ∨
    before.shared.prompts.value.capacity < before.shared.prompts.value.onceDenies.card

/-- The machine preference and the preference files of the other users are as before. -/
structure KeepsOthers (uid : UInt32) (before after : ControlState) : Prop where
  memory : after.enforcement.machineTraffic = before.enforcement.machineTraffic
  machine : after.enforcement.files.get TrafficMode.machineName =
    before.enforcement.files.get TrafficMode.machineName
  users : ∀ other, other ≠ uid → after.enforcement.files.get (TrafficMode.userPath other) =
    before.enforcement.files.get (TrafficMode.userPath other)

section Unauthorized

variable {toml : Toml} {context : RequestContext} {state : ControlState}

theorem Kept.refl (state : ControlState) : Kept state state where
  rules := rfl
  directory := rfl
  enforcement := rfl
  dns := .inl rfl
  prompts := .inl rfl
  denies := .inl rfl

/-- Listing the prompts runs the housekeeping. -/
theorem kept_promptList (context : RequestContext) (state : ControlState) :
    Kept state (state.promptList context).1 := by
  unfold ControlState.promptList PolicyStore.promptList
  cases hlock : state.policyStore.prompts.lock with
  | none => exact Kept.refl state
  | some prompts =>
    have hvalue : state.shared.prompts.value = prompts := Mutex.value_of_lock hlock
    refine ⟨⟨rfl, rfl, rfl, .inl rfl⟩, .inr ⟨context.expireNow, by rw [hvalue]; rfl⟩, ?_⟩
    rw [hvalue]
    by_cases hmany : prompts.capacity < prompts.onceDenies.card
    · exact .inr hmany
    · exact .inl (if_neg hmany)

/-- Listing the names drops those that expired. -/
theorem kept_dnsList (context : RequestContext) (state : ControlState) :
    Kept state (state.dnsList context).1 := by
  unfold ControlState.dnsList
  split
  · exact Kept.refl state
  · next dns hlock =>
    have hvalue : state.shared.dns.value = dns := Mutex.value_of_lock hlock
    exact ⟨⟨rfl, rfl, rfl, .inr ⟨context.expireNow, by rw [hvalue]; rfl⟩⟩, .inl rfl, .inl rfl⟩

/-- The handlers that change rules turn an unauthorized peer away. Assumes: it may not mutate. -/
theorem changePolicy_of_unauthorized (hpeer : context.peerMayMutate = false)
    (request : PolicyRequest) :
    state.changePolicy toml context request = (state, .error "unauthorized") := by
  have hinputs : context.policyInputs.peerMayMutate = false := hpeer
  have hhandle : state.policyStore.handle toml context.policyInputs request =
      (state.policyStore, .error "unauthorized") := by
    cases request <;>
      simp [PolicyStore.handle, PolicyStore.mutate, PolicyStore.promptAnswer, hinputs]
  rw [ControlState.changePolicy, hhandle]
  rfl

theorem noteDns_of_unauthorized (hpeer : context.peerMayMutate = false) (hostname ipv4 : String)
    (ttlSecs : Option UInt64) :
    state.noteDns context hostname ipv4 ttlSecs = (state, some (.error "unauthorized")) := by
  simp [ControlState.noteDns, dnsNote, hpeer]

theorem mutateMode_of_unauthorized (hpeer : context.peerMayMutate = false) (request : ModeRequest)
    (failure : String) :
    state.mutateMode context request failure = (state, .error "unauthorized") := by
  simp [ControlState.mutateMode, hpeer]

theorem trafficMutate_of_unauthorized (hpeer : context.peerMayMutate = false) (scope : String)
    (direction : Option String) (unblock : Bool) :
    state.trafficMutate context scope direction unblock = (state, .error "unauthorized") := by
  simp [ControlState.trafficMutate, hpeer]

/-- A request of an unauthorized peer changes nothing, up to the housekeeping. Assumes: the peer may
not mutate. -/
theorem kept_dispatch (toml : Toml) (state : ControlState)
    (hpeer : context.peerMayMutate = false) (request : Request) :
    Kept state (dispatch toml context state request).1 := by
  cases request with
  | promptList => exact kept_promptList context state
  | dnsList => exact kept_dnsList context state
  | ruleDelete id =>
    rw [dispatch, changePolicy_of_unauthorized hpeer]
    exact Kept.refl state
  | ruleAdd id executable verdict port =>
    rw [dispatch, changePolicy_of_unauthorized hpeer]
    exact Kept.refl state
  | promptAnswer id verdict scope =>
    rw [dispatch, changePolicy_of_unauthorized hpeer]
    exact Kept.refl state
  | dnsNote hostname ipv4 ttlSecs =>
    rw [dispatch, noteDns_of_unauthorized hpeer]
    exact Kept.refl state
  | networkInstall =>
    rw [dispatch, ControlState.networkMutate, mutateMode_of_unauthorized hpeer]
    exact Kept.refl state
  | networkRemove =>
    rw [dispatch, ControlState.networkMutate, mutateMode_of_unauthorized hpeer]
    exact Kept.refl state
  | pause =>
    rw [dispatch, ControlState.enforcementMutate, mutateMode_of_unauthorized hpeer]
    exact Kept.refl state
  | resume =>
    rw [dispatch, ControlState.enforcementMutate, mutateMode_of_unauthorized hpeer]
    exact Kept.refl state
  | trafficBlock scope direction =>
    rw [dispatch, trafficMutate_of_unauthorized hpeer]
    exact Kept.refl state
  | trafficUnblock scope =>
    rw [dispatch, trafficMutate_of_unauthorized hpeer]
    exact Kept.refl state
  | _ => exact Kept.refl state

end Unauthorized

/-! ### Peers other than root -/

section Users

variable {uid : UInt32}

/-- A handler that leaves the modes alone leaves those of the others. Assumes: it does. -/
theorem keepsOthers_of_enforcement_eq {before after : ControlState}
    (hsame : after.enforcement = before.enforcement) : KeepsOthers uid before after := by
  refine ⟨?_, ?_, fun _ _ ↦ ?_⟩
  · rw [hsame]
  · rw [hsame]
  · rw [hsame]

/-- A mode request about the mode file or about the user's own preference leaves those of the
others. Assumes: its file is one of the two. -/
theorem keepsOthers_changeMode (context : RequestContext) (state : ControlState)
    {request : ModeRequest} (hfile : request.fileName = EnforcementMode.modeName ∨
      request.fileName = TrafficMode.userPath uid) (failure : String) :
    KeepsOthers uid state (state.changeMode context request failure).1 := by
  have hmachine : TrafficMode.machineName ≠ request.fileName := by
    rcases hfile with hmode | huser
    · rw [hmode]
      exact modeName_ne_machineName.symm
    · rw [huser]
      exact machineName_ne_userPath uid
  refine ⟨?_, ?_, fun other hother ↦ ?_⟩
  · exact state.enforcement.machineTraffic_handle context.outcomes request hmachine.symm
  · exact state.enforcement.get_files_handle_of_ne context.outcomes request stemOf_machineName_mem
      hmachine
  · refine state.enforcement.get_files_handle_of_ne context.outcomes request
      (stemOf_userPath_mem other) ?_
    rcases hfile with hmode | huser
    · rw [hmode]
      exact (modeName_ne_userPath other).symm
    · rw [huser]
      exact fun hname ↦ hother (userPath_injective hname)

/-- Pausing and resuming leave the preferences. Assumes: the request is one of the two. -/
theorem keepsOthers_mutateMode (context : RequestContext) (state : ControlState)
    {request : ModeRequest} (hfile : request.fileName = EnforcementMode.modeName)
    (failure : String) : KeepsOthers uid state (state.mutateMode context request failure).1 := by
  unfold ControlState.mutateMode
  split
  · exact keepsOthers_of_enforcement_eq rfl
  · exact keepsOthers_changeMode context state (.inl hfile) failure

/-- A traffic request of a user other than root is about that user. Assumes: the socket reports the
user, who is not root. -/
theorem keepsOthers_trafficMutate {context : RequestContext} (huid : context.peerUid = some uid)
    (hroot : uid ≠ 0) (state : ControlState) (scope : String) (direction : Option String)
    (unblock : Bool) :
    KeepsOthers uid state (state.trafficMutate context scope direction unblock).1 := by
  have hscope : ∀ allowed, ControlState.trafficScope uid scope = .ok allowed → allowed = .user := by
    intro allowed hallowed
    unfold ControlState.trafficScope at hallowed
    split at hallowed
    · rw [if_pos hroot] at hallowed
      cases hallowed
    · exact (Except.ok.inj hallowed).symm
    · cases hallowed
  unfold ControlState.trafficMutate
  rw [huid]
  split
  · exact keepsOthers_of_enforcement_eq rfl
  · dsimp only
    split
    · exact keepsOthers_of_enforcement_eq rfl
    · next allowed hallowed =>
      obtain rfl := hscope allowed hallowed
      split
      · exact keepsOthers_changeMode context state (.inr rfl) _
      · split
        · exact keepsOthers_of_enforcement_eq rfl
        · split
          · exact keepsOthers_of_enforcement_eq rfl
          · exact keepsOthers_changeMode context state (.inr rfl) _

/-- A request of a user other than root changes neither the machine preference nor the file of
another user. Assumes: the socket reports the user, who is not root. -/
theorem keepsOthers_dispatch (toml : Toml) {context : RequestContext} (state : ControlState)
    (huid : context.peerUid = some uid) (hroot : uid ≠ 0) (request : Request) :
    KeepsOthers uid state (dispatch toml context state request).1 := by
  cases request with
  | trafficBlock scope direction =>
    exact keepsOthers_trafficMutate huid hroot state scope (some direction) false
  | trafficUnblock scope => exact keepsOthers_trafficMutate huid hroot state scope none true
  | networkInstall => exact keepsOthers_mutateMode context state rfl _
  | networkRemove => exact keepsOthers_mutateMode context state rfl _
  | pause => exact keepsOthers_mutateMode context state rfl _
  | resume => exact keepsOthers_mutateMode context state rfl _
  | promptList =>
    exact keepsOthers_of_enforcement_eq (kept_promptList context state).enforcement
  | dnsList => exact keepsOthers_of_enforcement_eq (kept_dnsList context state).enforcement
  | _ => exact keepsOthers_of_enforcement_eq rfl

end Users

/-- For every state, request and peer: a peer that may not mutate changes nothing, up to the
housekeeping, and a peer other than root changes neither the machine preference nor the preference
file of another user. Assumes: the socket reports the uid of the peer. -/
theorem dispatch_within_authority (toml : Toml) (context : RequestContext) (state : ControlState)
    (request : Request) {uid : UInt32} (huid : context.peerUid = some uid) :
    (context.uidMayMutate uid = false → Kept state (dispatch toml context state request).1) ∧
      (uid ≠ 0 → KeepsOthers uid state (dispatch toml context state request).1) := by
  refine ⟨fun hpeer ↦ kept_dispatch toml state ?_ request,
    fun hroot ↦ keepsOthers_dispatch toml state huid hroot request⟩
  rw [RequestContext.peerMayMutate, huid]
  exact hpeer

/-! ### A user without rights -/

/-- An ordinary user, with a daemon that runs as root and an operator group without members. -/
def RequestContext.ordinary : RequestContext :=
  { peerUid := some 1000
    daemonUid := 0
    inOperatorGroup := fun _ ↦ false
    expireNow := 0
    stampNow := 0
    save := .done
    outcomes := .success 0
    metrics := ⟨0, 0, 0⟩
    network := ⟨"inet interfire", 0, .missing, "none"⟩
    auditTail := fun _ ↦ ""
    uptimeSecs := 0
    version := ""
    git := "" }

/-- A daemon that has just started without rules, files or table, but for its prompt queue. -/
def ControlState.startedWith (prompts : PromptQueue) : ControlState :=
  { shared :=
      { rules := Mutex.new RuleSet.default
        processCache := Mutex.new (.new 1024 (by decide))
        prompts := Mutex.new prompts
        dns := Mutex.new (.new 2048 (by decide) (Duration.fromSecs 300))
        recent := Mutex.new (.new 1024 8 (by decide) (Nat.zero_lt_succ 7))
        pending := Mutex.new (.new 4096 (by decide) (Duration.fromSecs 5))
        stats := Mutex.new .new
        audit := Mutex.new [] }
    directory := ⟨none, none⟩
    enforcement :=
      { files := FiniteMap.empty, paused := false, machineTraffic := .open, bindState := .none,
        table := none }
    observation := "none" }

/-- A rule request of an ordinary user leaves everything, and the other users' preferences. -/
theorem dispatch_within_authority_ordinary :
    RequestContext.ordinary.uidMayMutate 1000 = false ∧
      Kept (.startedWith .withDefaults) (dispatch curlToml .ordinary (.startedWith .withDefaults)
        (.ruleAdd 1 "/usr/bin/curl" "allow" 443)).1 ∧
      KeepsOthers 1000 (.startedWith .withDefaults) (dispatch curlToml .ordinary
        (.startedWith .withDefaults) (.ruleAdd 1 "/usr/bin/curl" "allow" 443)).1 := by
  have hpeer : RequestContext.ordinary.uidMayMutate 1000 = false := by decide
  obtain ⟨hkept, hothers⟩ := dispatch_within_authority curlToml .ordinary
    (.startedWith .withDefaults) (.ruleAdd 1 "/usr/bin/curl" "allow" 443) rfl
  exact ⟨hpeer, hkept hpeer, hothers (by decide)⟩

/-- The queue after a program was denied once on a hundred and one ports. -/
def crowdedQueue : PromptQueue :=
  { PromptQueue.withDefaults with
    onceDenies := (Finset.range 101).image fun port ↦ ⟨"/usr/bin/curl", 0, UInt16.ofNat port⟩ }

theorem card_onceDenies_crowdedQueue : crowdedQueue.onceDenies.card = 101 := by
  rw [crowdedQueue, Finset.card_image_of_injOn, Finset.card_range]
  intro first hfirst second hsecond hsame
  have hports : UInt16.ofNat first = UInt16.ofNat second := congrArg PromptKey.port hsame
  rw [Finset.coe_range, Set.mem_Iio] at hfirst hsecond
  have hnumbers := congrArg UInt16.toNat hports
  have hsize : UInt16.size = 65536 := rfl
  rw [UInt16.toNat_ofNat_of_lt' (by omega), UInt16.toNat_ofNat_of_lt' (by omega)] at hnumbers
  exact hnumbers

/-- A list request forgets all deny tokens. Assumes: there are more than the capacity. -/
theorem onceDenies_promptList {prompts : PromptQueue} (context : RequestContext)
    (hmany : prompts.capacity < prompts.onceDenies.card) :
    ((ControlState.startedWith prompts).promptList context).1.shared.prompts.value.onceDenies = ∅ :=
  if_pos hmany

/-- The list request of an ordinary user drops the hundred and one deny tokens, none of which can
expire. -/
theorem list_forgets_deny_tokens :
    RequestContext.ordinary.uidMayMutate 1000 = false ∧
      (dispatch curlToml .ordinary (.startedWith crowdedQueue)
        .promptList).1.shared.prompts.value.onceDenies = ∅ ∧
      ¬ KeptUpToTime (.startedWith crowdedQueue)
        (dispatch curlToml .ordinary (.startedWith crowdedQueue) .promptList).1 := by
  have hcard := card_onceDenies_crowdedQueue
  have hmany : crowdedQueue.capacity < crowdedQueue.onceDenies.card := by
    rw [hcard]
    decide
  have hgone : (dispatch curlToml .ordinary (.startedWith crowdedQueue)
      .promptList).1.shared.prompts.value.onceDenies = ∅ := onceDenies_promptList _ hmany
  refine ⟨by decide, hgone, fun hkept ↦ ?_⟩
  have hsame : (dispatch curlToml .ordinary (.startedWith crowdedQueue)
      .promptList).1.shared.prompts.value.onceDenies = crowdedQueue.onceDenies := by
    rcases hkept.prompts with hprompts | ⟨now, hprompts⟩
    · rw [hprompts]
      rfl
    · rw [hprompts]
      rfl
  rw [hgone] at hsame
  rw [← hsame] at hcard
  cases hcard

end InterFire
