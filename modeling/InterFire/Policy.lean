import InterFire.Dns
import InterFire.Ebpf
import InterFire.Pending
import InterFire.Process
import InterFire.Prompts
import InterFire.Statistics

/-!
# Deciding a connect event

`crates/interfire-daemon/src/policy.rs`: attribute the event to a process, then let a once token, a
rule or a prompt decide it. The five collections that `decide` reads and changes are the
`PolicyState`, the readings of the clock it makes are a `DecideClock`, and the reads of `/proc` are
an argument.

`decide_accept_cases` is the inversion of an accept. `held_decide` and `held_of_consumedToken` say
what a decision does to the allow tokens.
-/

set_option autoImplicit false
set_option relaxedAutoImplicit false

namespace InterFire

/-- The instants at which one decision reads the clock, in the order in which it can read them. -/
structure DecideClock where
  takeExpire : Instant
  takeCheck : Instant
  denyExpire : Instant
  hostname : Instant
  enqueueExpire : Instant
  enqueueCreate : Instant
  deriving DecidableEq, Repr

/-- One instant for every reading. -/
def DecideClock.at (now : Instant) : DecideClock := ⟨now, now, now, now, now, now⟩

/-- The collections a decision works on. -/
structure PolicyState where
  rules : RuleSet
  cache : ProcessCache
  prompts : PromptQueue
  dns : DnsCache
  recent : RecentConnects

structure Decision where
  key : DestKey
  packetVerdict : PacketVerdict
  attributed : Bool
  promptId : Option UInt64
  stats : Option ConnectStats
  deriving DecidableEq, Repr

namespace Policy

/-- The join key of an event. -/
def destKey (event : TcpConnectEvent) : DestKey :=
  { ipv4 := event.destinationIpv4, port := event.destinationPort }

/-- The prompt key of an event of a process. -/
def promptKey (identity : ProcessIdentity) (event : TcpConnectEvent) : PromptKey :=
  { executable := identity.executable, ipv4 := event.destinationIpv4,
    port := event.destinationPort }

/-- The identity of the event's process: cached under a nonzero start time, or resolved now. -/
def attributeEvent (reads : ProcReads) (event : TcpConnectEvent) (cache : ProcessCache) :
    Except AttributionError (ProcessIdentity × ProcessCache) :=
  match (cache.get event.pid event.processStartTicks).filter
      fun _ ↦ event.processStartTicks ≠ 0 with
  | some cached => .ok (cached, cache)
  | none => do
    let identity ← Process.resolve reads event.pid event.processStartTicks
    return (identity, cache.insert identity)

/-- The connection the rules see: the address is the native bytes of the destination word, and the
hostname is the fresh name of that word. -/
def connectionFrom (identity : ProcessIdentity) (event : TcpConnectEvent) (now : Instant)
    (dns : DnsCache) : DnsCache × Connection :=
  let (dns, hostname) := dns.hostnameFor now event.destinationIpv4
  (dns,
    { executable := identity.executable
      protocol := .tcp
      direction := .outbound
      address := .v4 event.destinationOctets
      hostname
      port := event.destinationPort })

/-- The statistics of a connection: the address stands in for a missing hostname. -/
def statsOf (identity : ProcessIdentity) (event : TcpConnectEvent) (connection : Connection)
    (verdict : String) : ConnectStats :=
  { executable := identity.executable
    host := connection.hostname.getD event.destinationOctets.toText
    ipv4 := event.destinationOctets.toText
    port := event.destinationPort
    uid := identity.uid
    verdict }

def connectStats (identity : ProcessIdentity) (event : TcpConnectEvent) (now : Instant)
    (dns : DnsCache) (verdict : String) : DnsCache × ConnectStats :=
  let (dns, connection) := connectionFrom identity event now dns
  (dns, statsOf identity event connection verdict)

def recordRecent (recent : RecentConnects) (identity : ProcessIdentity) (event : TcpConnectEvent)
    (verdict : String) : RecentConnects :=
  recent.record identity.pid identity.startTicks
    { ipv4 := event.destinationOctets, port := event.destinationPort, verdict }

/-- Decide an event that a once token answers. -/
def decideByToken (clock : DecideClock) (identity : ProcessIdentity) (event : TcpConnectEvent)
    (state : PolicyState) (packetVerdict : PacketVerdict) (label : String) :
    PolicyState × Decision :=
  let recent := recordRecent state.recent identity event label
  let (dns, stats) := connectStats identity event clock.hostname state.dns label
  ({ state with recent, dns },
    { key := destKey event, packetVerdict, attributed := true, promptId := none,
      stats := some stats })

/-- What the verdict of the rules means for the packet. A prompt drops the packet, whether it is
created, coalesced or refused by a full queue. -/
def applyRuleVerdict (clock : DecideClock) (key : PromptKey) (prompts : PromptQueue) :
    Verdict → PromptQueue × PacketVerdict × Option UInt64 × String
  | .allow => (prompts, .accept, none, "allow")
  | .deny => (prompts, .drop, none, "deny")
  | .prompt =>
    match prompts.enqueue clock.enqueueExpire clock.enqueueCreate key with
    | (prompts, .created id) => (prompts, .drop, some id, "prompt")
    | (prompts, .deduped id) => (prompts, .drop, some id, "prompt")
    | (prompts, .full) => (prompts, .drop, none, "prompt")

/-- Decide an event that no once token answers, by the rules. -/
def decideByRules (clock : DecideClock) (identity : ProcessIdentity) (event : TcpConnectEvent)
    (state : PolicyState) : PolicyState × Decision :=
  let (dns, connection) := connectionFrom identity event clock.hostname state.dns
  let (prompts, packetVerdict, promptId, label) :=
    applyRuleVerdict clock (promptKey identity event) state.prompts
      (state.rules.verdictFor connection)
  let recent := recordRecent state.recent identity event label
  ({ state with prompts, dns, recent },
    { key := destKey event, packetVerdict, attributed := true, promptId,
      stats := some (statsOf identity event connection label) })

def decideAttributed (clock : DecideClock) (identity : ProcessIdentity) (event : TcpConnectEvent)
    (state : PolicyState) : PolicyState × Decision :=
  let key := promptKey identity event
  let (prompts, allowed) := state.prompts.takeOnceAllow clock.takeExpire clock.takeCheck key
  if allowed then decideByToken clock identity event { state with prompts } .accept "allow"
  else
    let (prompts, denied) := prompts.consumeOnceDeny clock.denyExpire key
    if denied then decideByToken clock identity event { state with prompts } .drop "deny"
    else decideByRules clock identity event { state with prompts }

/-- Attribute an event and decide it. An event without attribution is dropped. -/
def decide (clock : DecideClock) (reads : ProcReads) (event : TcpConnectEvent)
    (state : PolicyState) : PolicyState × Decision :=
  match attributeEvent reads event state.cache with
  | .ok (identity, cache) => decideAttributed clock identity event { state with cache }
  | .error _ =>
    (state,
      { key := destKey event, packetVerdict := .drop, attributed := false, promptId := none,
        stats := none })

/-! ### Why a decision accepts -/

variable (clock : DecideClock) (reads : ProcReads) (event : TcpConnectEvent) (state : PolicyState)

/-- The key whose allow token the decision consumes, if it does. -/
def consumedToken : Option PromptKey :=
  match attributeEvent reads event state.cache with
  | .ok (identity, _) =>
    if (state.prompts.takeOnceAllow clock.takeExpire clock.takeCheck (promptKey identity event)).2
    then some (promptKey identity event)
    else none
  | .error _ => none

/-- The rules answer allow to the connection of the event as the decision sees it. -/
def AllowedByRules (identity : ProcessIdentity) : Prop :=
  state.rules.verdictFor (connectionFrom identity event clock.hostname state.dns).2 = .allow

/-- Only the verdict allow turns into an accept. -/
theorem accept_applyRuleVerdict_iff (key : PromptKey) (prompts : PromptQueue) (verdict : Verdict) :
    (applyRuleVerdict clock key prompts verdict).2.1 = .accept ↔ verdict = .allow := by
  cases verdict with
  | allow => simp [applyRuleVerdict]
  | deny => simp [applyRuleVerdict]
  | prompt =>
    simp only [applyRuleVerdict]
    split <;> simp

/-- A decision is about the destination of its event. -/
theorem key_decide : (decide clock reads event state).2.key = destKey event := by
  unfold decide
  split
  · unfold decideAttributed
    dsimp only
    split_ifs <;> rfl
  · rfl

/-- A decision by the rules accepts exactly when they answer allow. -/
theorem accept_decideByRules_iff (identity : ProcessIdentity) :
    (decideByRules clock identity event state).2.packetVerdict = .accept ↔
      AllowedByRules clock event state identity := by
  have hverdict : (decideByRules clock identity event state).2.packetVerdict =
      (applyRuleVerdict clock (promptKey identity event) state.prompts (state.rules.verdictFor
        (connectionFrom identity event clock.hostname state.dns).2)).2.1 := rfl
  rw [hverdict, accept_applyRuleVerdict_iff, AllowedByRules]

/-- An attributed event is decided under its identity. Assumes: the attribution succeeds. -/
theorem decide_of_attributed {identity : ProcessIdentity} {cache : ProcessCache}
    (hattributed : attributeEvent reads event state.cache = .ok (identity, cache)) :
    decide clock reads event state =
      decideAttributed clock identity event { state with cache } := by
  simp only [decide, hattributed]

theorem consumedToken_of_attributed {identity : ProcessIdentity} {cache : ProcessCache}
    (hattributed : attributeEvent reads event state.cache = .ok (identity, cache)) :
    consumedToken clock reads event state =
      if (state.prompts.takeOnceAllow clock.takeExpire clock.takeCheck
        (promptKey identity event)).2 then some (promptKey identity event) else none := by
  simp only [consumedToken, hattributed]

@[simp] theorem attributed_decideAttributed (identity : ProcessIdentity) :
    (decideAttributed clock identity event state).2.attributed = true := by
  unfold decideAttributed
  dsimp only
  split_ifs <;> rfl

/-- An attributed event that no token answers is accepted only by the rules. Assumes: the decision
accepts and the take of a token failed. -/
theorem allowedByRules_of_accept {identity : ProcessIdentity}
    (haccept : (decideAttributed clock identity event state).2.packetVerdict = .accept)
    (htake : (state.prompts.takeOnceAllow clock.takeExpire clock.takeCheck
      (promptKey identity event)).2 = false) :
    AllowedByRules clock event state identity := by
  unfold decideAttributed at haccept
  dsimp only at haccept
  rw [htake, if_neg Bool.false_ne_true] at haccept
  split_ifs at haccept with hdeny
  · cases haccept
  · rw [accept_decideByRules_iff] at haccept
    exact haccept

/-- The inversion of an accept: the event is attributed, and its decision consumed the allow token
of its key or found the verdict allow in the rules. Assumes: the decision accepts. -/
theorem decide_accept_cases
    (haccept : (decide clock reads event state).2.packetVerdict = .accept) :
    (decide clock reads event state).2.attributed = true ∧
      ∃ identity cache, attributeEvent reads event state.cache = .ok (identity, cache) ∧
        (consumedToken clock reads event state = some (promptKey identity event) ∨
          AllowedByRules clock event state identity) := by
  cases hattributed : attributeEvent reads event state.cache with
  | error error => simp [decide, hattributed] at haccept
  | ok attributed =>
    obtain ⟨identity, cache⟩ := attributed
    rw [decide_of_attributed clock reads event state hattributed] at haccept ⊢
    refine ⟨attributed_decideAttributed .., identity, cache, rfl, ?_⟩
    rw [consumedToken_of_attributed clock reads event state hattributed]
    cases htake : (state.prompts.takeOnceAllow clock.takeExpire clock.takeCheck
        (promptKey identity event)).2 with
    | true => exact .inl rfl
    | false => exact .inr (allowedByRules_of_accept clock event { state with cache } haccept htake)

/-- A decision that consumes a token accepts. Assumes: a token is consumed. -/
theorem accept_of_consumedToken {key : PromptKey}
    (hconsumed : consumedToken clock reads event state = some key) :
    (decide clock reads event state).2.packetVerdict = .accept := by
  cases hattributed : attributeEvent reads event state.cache with
  | error error => simp [consumedToken, hattributed] at hconsumed
  | ok attributed =>
    obtain ⟨identity, cache⟩ := attributed
    rw [consumedToken_of_attributed clock reads event state hattributed] at hconsumed
    split_ifs at hconsumed with htake
    rw [decide_of_attributed clock reads event state hattributed, decideAttributed]
    dsimp only
    rw [if_pos htake, decideByToken]

/-! ### What a decision does to the allow tokens -/

@[simp] theorem prompts_decideByToken (identity : ProcessIdentity) (packetVerdict : PacketVerdict)
    (label : String) :
    (decideByToken clock identity event state packetVerdict label).1.prompts = state.prompts := rfl

theorem tokensLe_applyRuleVerdict (key : PromptKey) (prompts : PromptQueue) (verdict : Verdict) :
    PromptQueue.TokensLe (applyRuleVerdict clock key prompts verdict).1 prompts := by
  cases verdict with
  | allow => exact .refl prompts
  | deny => exact .refl prompts
  | prompt =>
    have henqueue :=
      PromptQueue.tokensLe_enqueue prompts clock.enqueueExpire clock.enqueueCreate key
    simp only [applyRuleVerdict]
    split <;> next heq => rw [heq] at henqueue; exact henqueue

theorem tokensLe_decideByRules (identity : ProcessIdentity) :
    PromptQueue.TokensLe (decideByRules clock identity event state).1.prompts state.prompts :=
  tokensLe_applyRuleVerdict clock _ _ _

/-- An attributed decision leaves no more tokens than the take of its first step. -/
theorem tokensLe_decideAttributed (identity : ProcessIdentity) :
    PromptQueue.TokensLe (decideAttributed clock identity event state).1.prompts
      (state.prompts.takeOnceAllow clock.takeExpire clock.takeCheck
        (promptKey identity event)).1 := by
  unfold decideAttributed
  dsimp only
  split_ifs with htake hdeny
  · exact .refl _
  · exact PromptQueue.tokensLe_consumeOnceDeny _ _ _
  · exact (tokensLe_decideByRules clock event _ identity).trans
      (PromptQueue.tokensLe_consumeOnceDeny _ _ _)

@[simp] theorem ttl_applyRuleVerdict (key : PromptKey) (prompts : PromptQueue)
    (verdict : Verdict) : (applyRuleVerdict clock key prompts verdict).1.ttl = prompts.ttl := by
  cases verdict with
  | allow => rfl
  | deny => rfl
  | prompt =>
    have henqueue := PromptQueue.ttl_enqueue prompts clock.enqueueExpire clock.enqueueCreate key
    simp only [applyRuleVerdict]
    split <;> next heq => rw [heq] at henqueue; exact henqueue

@[simp] theorem ttl_decideByRules (identity : ProcessIdentity) :
    (decideByRules clock identity event state).1.prompts.ttl = state.prompts.ttl :=
  ttl_applyRuleVerdict clock _ _ _

/-- A decision keeps the lifetime of tokens. -/
theorem ttl_decide : (decide clock reads event state).1.prompts.ttl = state.prompts.ttl := by
  cases hattributed : attributeEvent reads event state.cache with
  | error error => simp only [decide, hattributed]
  | ok attributed =>
    rw [decide_of_attributed clock reads event state hattributed, decideAttributed]
    dsimp only
    split_ifs with htake hdeny
    · rfl
    · rfl
    · rw [ttl_decideByRules]
      rfl

/-- A token held after a decision was held before it, and the decision did not consume it.
Assumes: the token is held afterwards. -/
theorem held_decide {key : PromptKey} {inserted : Instant}
    (hheld : (decide clock reads event state).1.prompts.onceAllows.get key = some inserted) :
    state.prompts.onceAllows.get key = some inserted ∧
      consumedToken clock reads event state ≠ some key := by
  cases hattributed : attributeEvent reads event state.cache with
  | error error =>
    simp only [decide, hattributed] at hheld
    exact ⟨hheld, by simp [consumedToken, hattributed]⟩
  | ok attributed =>
    obtain ⟨identity, cache⟩ := attributed
    rw [decide_of_attributed clock reads event state hattributed] at hheld
    have htaken := tokensLe_decideAttributed clock event { state with cache } identity _ _ hheld
    refine ⟨PromptQueue.tokensLe_takeOnceAllow _ _ _ _ _ _ htaken, fun hconsumed ↦ ?_⟩
    rw [consumedToken_of_attributed clock reads event state hattributed] at hconsumed
    split_ifs at hconsumed
    rw [← Option.some.inj hconsumed, PromptQueue.get_takeOnceAllow_self] at htaken
    cases htaken

/-- A consumed token was held and fresh. Assumes: the decision consumes the token of the key. -/
theorem held_of_consumedToken {key : PromptKey}
    (hconsumed : consumedToken clock reads event state = some key) :
    ∃ inserted, state.prompts.onceAllows.get key = some inserted ∧
      clock.takeCheck ≤ inserted + state.prompts.ttl := by
  unfold consumedToken at hconsumed
  split at hconsumed
  · split_ifs at hconsumed with htake
    obtain rfl := Option.some.inj hconsumed
    exact PromptQueue.held_of_takeOnceAllow htake
  · cases hconsumed

end Policy

end InterFire
