import InterFire.DnsNotes
import InterFire.PromptRuns
import InterFire.StatsAccounting

/-!
# The sinks of a connect event

`handle_event` reports one decision to the pending table, the statistics, the recent destinations,
the audit log and the prompt queue. The decision has five exits, and each builds its verdict word
itself. `decideAttributed_told` collects what the exits of an attributed event have in common: the
word under which the destination is recorded is the word of the statistics, and it is `allow` exactly
when the packet is accepted.

`tokens_decide` is the accounting of the once tokens: a decision loses at most one token that is
neither past its lifetime nor dropped by the housekeeping of a queue with too many denials.
`sinks_agree` is the agreement of all sinks for every event and every state without poison.
-/

set_option autoImplicit false
set_option relaxedAutoImplicit false

namespace InterFire

/-! ### Recent destinations -/

namespace RecentConnects

/-- The row is about a destination. -/
def isAbout (ipv4 : Octets) (port : UInt16) (row : RecentDest) : Bool :=
  row.ipv4 = ipv4 && row.port = port

/-- The verdict last recorded for a destination of a process identity. -/
def verdictOf (recent : RecentConnects) (pid : UInt32) (startTicks : UInt64) (ipv4 : Octets)
    (port : UInt16) : Option String :=
  ((recent.forProcess pid startTicks).find? (isAbout ipv4 port)).map RecentDest.verdict

theorem isAbout_iff (dest row : RecentDest) :
    isAbout dest.ipv4 dest.port row = true ↔ row.place = dest.place := by
  rw [RecentDest.place, RecentDest.place, Prod.mk.injEq]
  simp [isAbout]

/-- Rows of other destinations are passed over. Assumes: they are of others. -/
theorem find?_isAbout_eq_none {dest : RecentDest} {rows : List RecentDest}
    (hother : ∀ row ∈ rows, row.place ≠ dest.place) :
    rows.find? (isAbout dest.ipv4 dest.port) = none := by
  rw [List.find?_eq_none]
  exact fun row hmem habout ↦ hother row hmem ((isAbout_iff dest row).mp habout)

theorem find?_pushDest (perKey : ℕ) (queue : List RecentDest) (dest : RecentDest) :
    ((pushDest perKey queue dest).find? (isAbout dest.ipv4 dest.port)).map RecentDest.verdict =
      some dest.verdict := by
  have hself : isAbout dest.ipv4 dest.port dest = true := (isAbout_iff dest dest).mpr rfl
  rcases pushDest_cases perKey queue dest with ⟨left, row, right, -, hleft, -, hpush⟩ | ⟨hnew, hpush⟩
  · rw [hpush, List.find?_append, find?_isAbout_eq_none hleft, Option.none_or,
      List.find?_cons_of_pos hself, Option.map_some]
  · have hkept : ∀ row ∈ queue.drop (queue.length + 1 - perKey), row.place ≠ dest.place :=
      fun row hmem ↦ hnew row (List.mem_of_mem_drop hmem)
    rw [hpush, List.find?_append, find?_isAbout_eq_none hkept, Option.none_or,
      List.find?_cons_of_pos hself, Option.map_some]

/-- A recorded destination has the verdict of its record. -/
theorem verdictOf_record (recent : RecentConnects) (pid : UInt32) (startTicks : UInt64)
    (dest : RecentDest) :
    (recent.record pid startTicks dest).verdictOf pid startTicks dest.ipv4 dest.port =
      some dest.verdict := by
  have hqueue : ∃ queue, (recent.record pid startTicks dest).forProcess pid startTicks =
      pushDest recent.perKey queue dest := by
    unfold record forProcess
    dsimp only
    by_cases hknown : (recent.entries.get (pid, startTicks)).isSome
    · obtain ⟨queue, hget⟩ := Option.isSome_iff_exists.mp hknown
      exact ⟨queue, by simp [hget, FiniteMap.get_update]⟩
    · exact ⟨[], by simp [hknown, FiniteMap.get_update]⟩
  obtain ⟨queue, hqueue⟩ := hqueue
  rw [verdictOf, hqueue]
  exact find?_pushDest recent.perKey queue dest

end RecentConnects

/-! ### The word of a decision -/

/-- The outcome that the audit log reports. -/
def Decision.outcome (decision : Decision) : String :=
  decision.stats.elim "deny" ConnectStats.verdict

namespace Policy

variable (clock : DecideClock) (reads : ProcReads) (event : TcpConnectEvent) (state : PolicyState)

/-- The exits of an attributed decision: an allow token, a deny token, or the rules. -/
theorem decideAttributed_cases (identity : ProcessIdentity) (cache : ProcessCache) :
    let key := promptKey identity event
    let taken := state.prompts.takeOnceAllow clock.takeExpire clock.takeCheck key
    let consumed := taken.1.consumeOnceDeny clock.denyExpire key
    (taken.2 = true ∧ decideAttributed clock identity event { state with cache } =
      decideByToken clock identity event { state with cache, prompts := taken.1 } .accept "allow") ∨
    (taken.2 = false ∧ consumed.2 = true ∧
      decideAttributed clock identity event { state with cache } =
        decideByToken clock identity event
          { state with cache, prompts := clearedPrompts clock state key } .drop "deny") ∨
    (taken.2 = false ∧ consumed.2 = false ∧
      decideAttributed clock identity event { state with cache } =
        decideByRules clock identity event
          { state with cache, prompts := clearedPrompts clock state key }) := by
  intro key taken consumed
  cases hallowed : taken.2 with
  | true =>
    refine .inl ⟨rfl, ?_⟩
    rw [decideAttributed]
    exact if_pos hallowed
  | false =>
    cases hdenied : consumed.2 with
    | true =>
      have hallowed' : (state.prompts.takeOnceAllow clock.takeExpire clock.takeCheck
          (promptKey identity event)).2 = false := hallowed
      have hdenied' : ((state.prompts.takeOnceAllow clock.takeExpire clock.takeCheck
          (promptKey identity event)).1.consumeOnceDeny clock.denyExpire
            (promptKey identity event)).2 = true := hdenied
      refine .inr (.inl ⟨rfl, rfl, ?_⟩)
      rw [decideAttributed]
      dsimp only
      rw [hallowed', if_neg Bool.false_ne_true, hdenied', if_pos rfl]
      rfl
    | false => exact .inr (.inr ⟨rfl, rfl, decideAttributed_of_untokened hallowed hdenied⟩)

/-- What the exits of an attributed decision have in common: the destination is recorded under the
word of the statistics, which is a word of the policy, allow exactly when the packet is accepted,
and prompt when there is a prompt. -/
structure Told (identity : ProcessIdentity) (before after : RecentConnects) (decision : Decision) :
    Prop where
  stats : ∃ hit, decision.stats = some hit ∧ hit.executable = identity.executable ∧
    hit.ipv4 = event.destinationOctets.toText ∧ hit.port = event.destinationPort ∧
    hit.uid = identity.uid
  recorded : after = recordRecent before identity event decision.outcome
  word : decision.outcome ∈ StatsCounters.verdictWords
  accept_iff : decision.packetVerdict = .accept ↔ decision.outcome = "allow"
  prompt_of_id : decision.promptId ≠ none → decision.outcome = "prompt"

theorem told_decideByToken (identity : ProcessIdentity) (packetVerdict : PacketVerdict)
    (label : String) (hword : label ∈ StatsCounters.verdictWords)
    (haccept : packetVerdict = .accept ↔ label = "allow") :
    Told event identity state.recent
      (decideByToken clock identity event state packetVerdict label).1.recent
      (decideByToken clock identity event state packetVerdict label).2 :=
  ⟨⟨_, rfl, rfl, rfl, rfl, rfl⟩, rfl, hword, haccept, fun hid ↦ absurd rfl hid⟩

/-- The word of a verdict of the rules. -/
theorem label_applyRuleVerdict (key : PromptKey) (prompts : PromptQueue) (verdict : Verdict) :
    let applied := applyRuleVerdict clock key prompts verdict
    applied.2.2.2 ∈ StatsCounters.verdictWords ∧
      (applied.2.1 = .accept ↔ applied.2.2.2 = "allow") ∧
      (applied.2.2.2 = "prompt" ↔ verdict = .prompt) ∧
      (applied.2.2.1 ≠ none → applied.2.2.2 = "prompt") := by
  cases verdict with
  | allow => simp [applyRuleVerdict, StatsCounters.verdictWords]
  | deny => simp [applyRuleVerdict, StatsCounters.verdictWords]
  | prompt =>
    simp only [applyRuleVerdict]
    split <;> simp [StatsCounters.verdictWords]

theorem told_decideByRules (identity : ProcessIdentity) {before : RecentConnects}
    (hbefore : state.recent = before) :
    Told event identity before (decideByRules clock identity event state).1.recent
      (decideByRules clock identity event state).2 := by
  subst hbefore
  obtain ⟨hword, haccept, -, hprompt⟩ := label_applyRuleVerdict clock (promptKey identity event)
    state.prompts (state.rules.verdictFor (connectionFrom identity event clock.hostname state.dns).2)
  exact ⟨⟨_, rfl, rfl, rfl, rfl, rfl⟩, rfl, hword, haccept, hprompt⟩

/-- The exits of an attributed decision tell the same word to every sink. -/
theorem told_decideAttributed (identity : ProcessIdentity) (cache : ProcessCache) :
    Told event identity state.recent
      (decideAttributed clock identity event { state with cache }).1.recent
      (decideAttributed clock identity event { state with cache }).2 := by
  rcases decideAttributed_cases clock event state identity cache with
    ⟨-, hexit⟩ | ⟨-, -, hexit⟩ | ⟨-, -, hexit⟩
  · rw [hexit]
    exact told_decideByToken clock event _ identity .accept "allow" (by decide) (by decide)
  · rw [hexit]
    exact told_decideByToken clock event _ identity .drop "deny" (by decide) (by decide)
  · rw [hexit]
    exact told_decideByRules clock event _ identity rfl

end Policy

/-! ### The tokens of a decision -/

/-- A token of an answer with scope once. -/
inductive OnceToken
  | allow (key : PromptKey) (inserted : Instant)
  | deny (key : PromptKey)
  deriving DecidableEq, Repr

namespace OnceToken

/-- The queue holds the token. -/
def HeldBy (queue : PromptQueue) : OnceToken → Prop
  | .allow key inserted => queue.onceAllows.get key = some inserted
  | .deny key => key ∈ queue.onceDenies

/-- The housekeeping at an instant drops the token: an allow token past its lifetime, or a deny token
when there are too many of them. -/
def Stale (queue : PromptQueue) (now : Instant) : OnceToken → Prop
  | .allow _ inserted => inserted + queue.ttl < now
  | .deny _ => queue.capacity < queue.onceDenies.card

/-- The verdict that the token stands for. -/
def word : OnceToken → String
  | .allow _ _ => "allow"
  | .deny _ => "deny"

end OnceToken

/-- A queue gains no token, and loses one token that is consumed and those that are stale at one of
some instants. -/
structure LosesTokens (instants : List Instant) (consumed : Option OnceToken)
    (before after : PromptQueue) : Prop where
  ttl_eq : after.ttl = before.ttl
  capacity_eq : after.capacity = before.capacity
  held : ∀ token : OnceToken, token.HeldBy after → token.HeldBy before
  lost : ∀ token : OnceToken, token.HeldBy before → ¬ token.HeldBy after →
    consumed = some token ∨ ∃ now ∈ instants, token.Stale before now

namespace LosesTokens

variable {instants later : List Instant} {consumed : Option OnceToken}
  {before between after : PromptQueue}

/-- A token that is stale later was stale before. -/
theorem stale (hloses : LosesTokens instants consumed before after) {now : Instant}
    {token : OnceToken} (hstale : token.Stale after now) : token.Stale before now := by
  cases token with
  | allow key inserted =>
    rw [OnceToken.Stale, hloses.ttl_eq] at hstale
    exact hstale
  | deny key =>
    rw [OnceToken.Stale, hloses.capacity_eq] at hstale
    have hsubset : after.onceDenies ⊆ before.onceDenies :=
      fun other hmem ↦ hloses.held (.deny other) hmem
    exact hstale.trans_le (Finset.card_le_card hsubset)

/-- Assumes: the first operation consumes no token. -/
theorem trans (hfirst : LosesTokens instants none before between)
    (hsecond : LosesTokens later consumed between after) :
    LosesTokens (instants ++ later) consumed before after := by
  refine ⟨hsecond.ttl_eq.trans hfirst.ttl_eq, hsecond.capacity_eq.trans hfirst.capacity_eq,
    fun token hheld ↦ hfirst.held token (hsecond.held token hheld), fun token hheld hlost ↦ ?_⟩
  by_cases hbetween : token.HeldBy between
  · rcases hsecond.lost token hbetween hlost with hconsumed | ⟨now, hnow, hstale⟩
    · exact .inl hconsumed
    · exact .inr ⟨now, List.mem_append_right _ hnow, hfirst.stale hstale⟩
  · rcases hfirst.lost token hheld hbetween with hnone | ⟨now, hnow, hstale⟩
    · cases hnone
    · exact .inr ⟨now, List.mem_append_left _ hnow, hstale⟩

theorem mono (hloses : LosesTokens instants consumed before after) (hsub : instants ⊆ later) :
    LosesTokens later consumed before after :=
  ⟨hloses.ttl_eq, hloses.capacity_eq, hloses.held, fun token hheld hlost ↦
    (hloses.lost token hheld hlost).imp_right fun ⟨now, hnow, hstale⟩ ↦ ⟨now, hsub hnow, hstale⟩⟩

protected theorem refl (instants : List Instant) (queue : PromptQueue) :
    LosesTokens instants none queue queue :=
  ⟨rfl, rfl, fun _ hheld ↦ hheld, fun _ hheld hlost ↦ absurd hheld hlost⟩

end LosesTokens

namespace PromptQueue

variable (queue : PromptQueue)

theorem losesTokens_expire (now : Instant) : LosesTokens [now] none queue (queue.expire now) := by
  refine ⟨rfl, rfl, fun token hheld ↦ ?_, fun token hheld hlost ↦ .inr ⟨now, List.mem_cons_self, ?_⟩⟩
  · cases token with
    | allow key inserted => exact tokensLe_expire queue now key inserted hheld
    | deny key =>
      change key ∈ (if queue.capacity < queue.onceDenies.card then ∅ else queue.onceDenies) at hheld
      split_ifs at hheld
      · cases hheld
      · exact hheld
  · cases token with
    | allow key inserted =>
      change inserted + queue.ttl < now
      by_contra hfresh
      refine hlost ?_
      change (queue.onceAllows.retain _).get key = some inserted
      rw [FiniteMap.get_retain, show queue.onceAllows.get key = some inserted from hheld]
      simp [not_lt.mp hfresh]
    | deny key =>
      change queue.capacity < queue.onceDenies.card
      by_contra hroom
      refine hlost ?_
      change key ∈ (if queue.capacity < queue.onceDenies.card then ∅ else queue.onceDenies)
      rw [if_neg hroom]
      exact hheld

section Take

variable {expireNow checkNow : Instant} {key : PromptKey}

theorem heldBy_of_takeOnceAllow {token : OnceToken}
    (hheld : token.HeldBy (queue.takeOnceAllow expireNow checkNow key).1) :
    token.HeldBy (queue.expire expireNow) := by
  cases token with
  | allow other inserted =>
    change ((queue.expire expireNow).onceAllows.remove key).get other = some inserted at hheld
    rw [FiniteMap.get_remove] at hheld
    split_ifs at hheld
    exact hheld
  | deny other => exact hheld

/-- After the housekeeping a take removes only the token of its key. -/
theorem eq_of_lost_takeOnceAllow {token : OnceToken} (hheld : token.HeldBy (queue.expire expireNow))
    (hlost : ¬ token.HeldBy (queue.takeOnceAllow expireNow checkNow key).1) :
    ∃ inserted, token = .allow key inserted ∧
      (queue.expire expireNow).onceAllows.get key = some inserted := by
  cases token with
  | allow other inserted =>
    change (queue.expire expireNow).onceAllows.get other = some inserted at hheld
    change ¬ ((queue.expire expireNow).onceAllows.remove key).get other = some inserted at hlost
    have hkey : other = key := by
      by_contra hne
      exact hlost ((FiniteMap.get_remove_of_ne _ hne).trans hheld)
    subst hkey
    exact ⟨inserted, rfl, hheld⟩
  | deny other => exact absurd hheld hlost

/-- A take that fails consumes no token: the token of its key may have lapsed between the two
readings of the clock. -/
theorem losesTokens_takeOnceAllow_of_false
    (htake : (queue.takeOnceAllow expireNow checkNow key).2 = false) :
    LosesTokens [expireNow, checkNow] none queue
      (queue.takeOnceAllow expireNow checkNow key).1 := by
  have hremoved : LosesTokens [checkNow] none (queue.expire expireNow)
      (queue.takeOnceAllow expireNow checkNow key).1 := by
    refine ⟨rfl, rfl, fun token hheld ↦ queue.heldBy_of_takeOnceAllow hheld,
      fun token hheld hlost ↦ .inr ⟨checkNow, List.mem_cons_self, ?_⟩⟩
    obtain ⟨inserted, rfl, hget⟩ := queue.eq_of_lost_takeOnceAllow hheld hlost
    simp only [takeOnceAllow, hget, Option.any_some, decide_eq_false_iff_not, not_le] at htake
    exact htake
  exact (queue.losesTokens_expire expireNow).trans hremoved

/-- A take that succeeds consumes the token of its key. -/
theorem losesTokens_takeOnceAllow_of_true
    (htake : (queue.takeOnceAllow expireNow checkNow key).2 = true) :
    ∃ inserted, LosesTokens [expireNow] (some (.allow key inserted)) queue
      (queue.takeOnceAllow expireNow checkNow key).1 := by
  simp only [takeOnceAllow, Option.any_eq_true] at htake
  obtain ⟨inserted, hget, -⟩ := htake
  have hremoved : LosesTokens [] (some (.allow key inserted)) (queue.expire expireNow)
      (queue.takeOnceAllow expireNow checkNow key).1 := by
    refine ⟨rfl, rfl, fun token hheld ↦ queue.heldBy_of_takeOnceAllow hheld,
      fun token hheld hlost ↦ .inl ?_⟩
    obtain ⟨instant, rfl, hinstant⟩ := queue.eq_of_lost_takeOnceAllow hheld hlost
    rw [Option.some.inj (hget.symm.trans hinstant)]
  exact ⟨inserted, (queue.losesTokens_expire expireNow).trans hremoved⟩

end Take

/-- Asking for a deny token consumes it when it is there, and nothing else. -/
theorem losesTokens_consumeOnceDeny (now : Instant) (key : PromptKey) :
    LosesTokens [now] (if (queue.consumeOnceDeny now key).2 then some (.deny key) else none) queue
      (queue.consumeOnceDeny now key).1 := by
  have herased : LosesTokens [] (if (queue.consumeOnceDeny now key).2 then some (.deny key) else none)
      (queue.expire now) (queue.consumeOnceDeny now key).1 := by
    refine ⟨rfl, rfl, fun token hheld ↦ ?_, fun token hheld hlost ↦ .inl ?_⟩
    · cases token with
      | allow other inserted => exact hheld
      | deny other => exact Finset.mem_of_mem_erase hheld
    · cases token with
      | allow other inserted => exact absurd hheld hlost
      | deny other =>
        change other ∈ (queue.expire now).onceDenies at hheld
        have hkey : other = key := by
          by_contra hne
          exact hlost (Finset.mem_erase.mpr ⟨hne, hheld⟩)
        subst hkey
        exact if_pos (decide_eq_true hheld)
  exact (queue.losesTokens_expire now).trans herased

/-- An enqueued key consumes no token. -/
theorem losesTokens_enqueue (expireNow createNow : Instant) (key : PromptKey) :
    LosesTokens [expireNow] none queue (queue.enqueue expireNow createNow key).1 := by
  have hsame : LosesTokens [] none (queue.expire expireNow)
      (queue.enqueue expireNow createNow key).1 := by
    unfold enqueue
    dsimp only
    split
    · exact .refl _ _
    · split_ifs
      · exact .refl _ _
      · exact ⟨rfl, rfl, fun token hheld ↦ by cases token <;> exact hheld,
          fun token hheld hlost ↦ absurd (by cases token <;> exact hheld) hlost⟩
  exact (queue.losesTokens_expire expireNow).trans hsame

end PromptQueue

/-- The prompt that an outcome names. -/
def EnqueueOutcome.promptId : EnqueueOutcome → Option UInt64
  | .created id => some id
  | .deduped id => some id
  | .full => none

/-- The instants at which a decision can run the housekeeping of the prompts or check a token. -/
def DecideClock.tokenReadings (clock : DecideClock) : List Instant :=
  [clock.takeExpire, clock.takeCheck, clock.denyExpire, clock.enqueueExpire]

namespace Policy

variable (clock : DecideClock) (reads : ProcReads) (event : TcpConnectEvent) (state : PolicyState)

/-- The prompts after a decision that enqueues no key: they are left alone, or one or both tokens of
a key were asked for. -/
def Unasked (prompts : PromptQueue) : Prop :=
  prompts = state.prompts ∨ ∃ key,
    prompts = (state.prompts.takeOnceAllow clock.takeExpire clock.takeCheck key).1 ∨
      prompts = clearedPrompts clock state key

/-- A decision enqueues a key exactly when its word is prompt, and only then names a prompt. -/
def AskedInWord (prompts : PromptQueue) (decision : Decision) : Prop :=
  (decision.outcome = "prompt" ∧ ∃ key,
    let asked := (clearedPrompts clock state key).enqueue clock.enqueueExpire clock.enqueueCreate key
    prompts = asked.1 ∧ decision.promptId = asked.2.promptId) ∨
  (decision.outcome ≠ "prompt" ∧ decision.promptId = none ∧ Unasked clock state prompts)

theorem promptId_applyRuleVerdict (key : PromptKey) (prompts : PromptQueue) :
    (applyRuleVerdict clock key prompts .prompt).2.2.1 =
      (prompts.enqueue clock.enqueueExpire clock.enqueueCreate key).2.promptId := by
  simp only [applyRuleVerdict]
  split <;> next heq => rw [heq]; rfl

/-- What the rules do with an event that no token answers: they enqueue its key and say prompt, or
leave the prompts alone and say another word. -/
theorem decideByRules_asks (identity : ProcessIdentity) :
    let decided := decideByRules clock identity event state
    let asked := state.prompts.enqueue clock.enqueueExpire clock.enqueueCreate
      (promptKey identity event)
    (decided.2.outcome = "prompt" ∧ decided.1.prompts = asked.1 ∧
      decided.2.promptId = asked.2.promptId) ∨
    (decided.2.outcome ≠ "prompt" ∧ decided.1.prompts = state.prompts ∧
      decided.2.promptId = none) := by
  intro decided asked
  have hlabel := label_applyRuleVerdict clock (promptKey identity event) state.prompts
    (state.rules.verdictFor (connectionFrom identity event clock.hostname state.dns).2)
  have houtcome : decided.2.outcome = (applyRuleVerdict clock (promptKey identity event)
      state.prompts (state.rules.verdictFor
        (connectionFrom identity event clock.hostname state.dns).2)).2.2.2 := rfl
  have hid : decided.2.promptId = (applyRuleVerdict clock (promptKey identity event)
      state.prompts (state.rules.verdictFor
        (connectionFrom identity event clock.hostname state.dns).2)).2.2.1 := rfl
  dsimp only at hlabel
  rw [← houtcome, ← hid] at hlabel
  obtain ⟨-, -, hword, hprompt⟩ := hlabel
  rcases prompts_decideByRules_cases clock event state identity with
    ⟨hverdict, hprompts⟩ | ⟨hverdict, hprompts⟩
  · refine .inr ⟨fun hsaid ↦ hverdict (hword.mp hsaid), hprompts, ?_⟩
    by_contra hsome
    exact hverdict (hword.mp (hprompt hsome))
  · refine .inl ⟨hword.mpr hverdict, hprompts, ?_⟩
    rw [hid, hverdict, promptId_applyRuleVerdict]

/-- Asking for the deny token after a take that failed. -/
theorem losesTokens_clearedPrompts (key : PromptKey)
    (htaken : (state.prompts.takeOnceAllow clock.takeExpire clock.takeCheck key).2 = false) :
    LosesTokens [clock.takeExpire, clock.takeCheck, clock.denyExpire]
      (if ((state.prompts.takeOnceAllow clock.takeExpire clock.takeCheck key).1.consumeOnceDeny
        clock.denyExpire key).2 then some (.deny key) else none)
      state.prompts (clearedPrompts clock state key) :=
  (PromptQueue.losesTokens_takeOnceAllow_of_false _ htaken).trans
    (PromptQueue.losesTokens_consumeOnceDeny _ clock.denyExpire key)

/-- An attributed decision asks in its word, and at most one token answers it. -/
theorem decideAttributed_asks (identity : ProcessIdentity) (cache : ProcessCache) :
    let decided := decideAttributed clock identity event { state with cache }
    AskedInWord clock state decided.1.prompts decided.2 ∧
      ∃ consumed, (∀ token, consumed = some token → token.word = decided.2.outcome) ∧
        LosesTokens clock.tokenReadings consumed state.prompts decided.1.prompts := by
  dsimp only
  rcases decideAttributed_cases clock event state identity cache with
    ⟨htaken, hexit⟩ | ⟨htaken, hconsumed, hexit⟩ | ⟨htaken, hconsumed, hexit⟩
  · obtain ⟨inserted, hloses⟩ := PromptQueue.losesTokens_takeOnceAllow_of_true _ htaken
    have houtcome : (decideByToken clock identity event { state with
        cache, prompts := (state.prompts.takeOnceAllow clock.takeExpire clock.takeCheck
          (promptKey identity event)).1 } .accept "allow").2.outcome = "allow" := rfl
    rw [hexit, prompts_decideByToken, AskedInWord, houtcome]
    refine ⟨.inr ⟨by decide, rfl, .inr ⟨_, .inl rfl⟩⟩, _, ?_, hloses.mono ?_⟩
    · rintro token ⟨⟩
      rfl
    · simp [DecideClock.tokenReadings]
  · have hloses := losesTokens_clearedPrompts clock state _ htaken
    rw [if_pos hconsumed] at hloses
    have houtcome : (decideByToken clock identity event { state with
        cache, prompts := clearedPrompts clock state (promptKey identity event) } .drop
          "deny").2.outcome = "deny" := rfl
    rw [hexit, prompts_decideByToken, AskedInWord, houtcome]
    refine ⟨.inr ⟨by decide, rfl, .inr ⟨_, .inr rfl⟩⟩, _, ?_, hloses.mono ?_⟩
    · rintro token ⟨⟩
      rfl
    · simp [DecideClock.tokenReadings]
  · have hloses := losesTokens_clearedPrompts clock state _ htaken
    rw [if_neg (Bool.eq_false_iff.mp hconsumed)] at hloses
    rw [hexit]
    rcases decideByRules_asks clock event { state with
        cache, prompts := clearedPrompts clock state (promptKey identity event) } identity with
      ⟨hword, hprompts, hid⟩ | ⟨hword, hprompts, hid⟩
    · refine ⟨.inl ⟨hword, _, hprompts, hid⟩, none, by simp, ?_⟩
      have hasked := PromptQueue.losesTokens_enqueue
        (clearedPrompts clock state (promptKey identity event)) clock.enqueueExpire
        clock.enqueueCreate (promptKey identity event)
      rw [← hprompts] at hasked
      exact hloses.trans hasked
    · refine ⟨.inr ⟨hword, hid, .inr ⟨_, .inr hprompts⟩⟩, none, by simp, ?_⟩
      rw [show (decideByRules clock identity event _).1.prompts = _ from hprompts]
      refine hloses.mono ?_
      simp [DecideClock.tokenReadings]

end Policy

/-! ### The handler -/

/-- The call of the statistics for a decision. -/
def Decision.statsOp (decision : Decision) : StatsOp :=
  decision.stats.elim .recordUnattributedDeny .record

theorem Decision.denies_statsOp_iff (decision : Decision) :
    decision.statsOp.denies = true ↔ decision.outcome = "deny" := by
  rw [Decision.statsOp, Decision.outcome]
  cases decision.stats with
  | none => exact iff_of_true rfl rfl
  | some hit => exact decide_eq_true_iff

theorem Decision.statsOp_step (decision : Decision) (store : StatsStore) :
    decision.statsOp.step store = decision.stats.elim store.recordUnattributedDeny store.record := by
  rw [Decision.statsOp]
  cases decision.stats <;> rfl

/-- Every dimension counts the connection under the verdict word of its record. -/
structure StatsStore.RowsTell (hit : ConnectStats) (before after : StatsStore) : Prop where
  host : after.hosts.counters.get hit.host = some ((before.hosts.rowOf hit.host).bump hit.verdict)
  proc : after.procs.counters.get hit.executable =
    some ((before.procs.rowOf hit.executable).bump hit.verdict)
  addr : after.addrs.counters.get hit.ipv4 = some ((before.addrs.rowOf hit.ipv4).bump hit.verdict)
  port : after.ports.counters.get hit.port = some ((before.ports.rowOf hit.port).bump hit.verdict)
  user : after.users.counters.get hit.uid = some ((before.users.rowOf hit.uid).bump hit.verdict)

theorem StatsStore.rowsTell_record (store : StatsStore) (hit : ConnectStats) :
    RowsTell hit store (store.record hit) :=
  ⟨StatsDimension.get_bump_self .., StatsDimension.get_bump_self ..,
    StatsDimension.get_bump_self .., StatsDimension.get_bump_self ..,
    StatsDimension.get_bump_self ..⟩

/-- The two counters of connections, which stop at the greatest number. -/
structure StatsStore.CountsOne (outcome : String) (before after : StatsStore) : Prop where
  connections : after.connections.toNat = min (before.connections.toNat + 1) (2 ^ 64 - 1)
  denied : after.denied.toNat = if outcome = "deny"
    then min (before.denied.toNat + 1) (2 ^ 64 - 1) else before.denied.toNat

/-- The sinks of an event tell the same: one verdict is stored, one connection is counted and one
record is written; the stored verdict is accept exactly when the outcome of the record is allow; an
attributed event has the outcome in the statistics and among the recent destinations, another one is
denied and has no row; a key is enqueued only in a decision with the outcome prompt, which drops the
packet; and at most one token is consumed, whose verdict is the outcome. -/
structure SinksAgree (clock : DecideClock) (expireNow stampNow : Instant) (reads : ProcReads)
    (event : TcpConnectEvent) (before after : Shared) (decision : Decision) : Prop where
  pending : after.pending.value = before.pending.value.insert expireNow stampNow
    (Policy.destKey event) decision.packetVerdict
  entry : after.pending.value.entries.get (Policy.destKey event) =
    some ⟨decision.packetVerdict, stampNow⟩
  audit : after.audit.value = before.audit.value ++
    ["connect port=" ++ toString event.destinationPort.toNat ++ " attributed=" ++
      toString decision.attributed ++ " outcome=" ++ decision.outcome]
  word : decision.outcome ∈ ["allow", "deny", "prompt"]
  accept_iff : decision.packetVerdict = .accept ↔ decision.outcome = "allow"
  counted : StatsStore.CountsOne decision.outcome before.stats.value after.stats.value
  attributed : decision.attributed = true → ∃ identity cache hit,
    Policy.attributeEvent reads event before.processCache.value = .ok (identity, cache) ∧
    hit.executable = identity.executable ∧ hit.ipv4 = event.destinationOctets.toText ∧
    hit.port = event.destinationPort ∧ hit.uid = identity.uid ∧ hit.verdict = decision.outcome ∧
    after.stats.value = before.stats.value.record hit ∧
    StatsStore.RowsTell hit before.stats.value after.stats.value ∧
    after.recent.value.verdictOf identity.pid identity.startTicks event.destinationOctets
      event.destinationPort = some decision.outcome
  unattributed : decision.attributed = false → decision.outcome = "deny" ∧
    after.stats.value = before.stats.value.recordUnattributedDeny ∧
    after.recent.value = before.recent.value
  asked : Policy.AskedInWord clock before.policyState after.prompts.value decision
  token : ∃ consumed, (∀ token, consumed = some token → token.word = decision.outcome) ∧
    LosesTokens clock.tokenReadings consumed before.prompts.value after.prompts.value

/-- The record of a decision about an event. -/
theorem Observe.auditMessage_of_key {event : TcpConnectEvent} {decision : Decision}
    (hkey : decision.key = Policy.destKey event) :
    Observe.auditMessage decision = "connect port=" ++ toString event.destinationPort.toNat ++
      " attributed=" ++ toString decision.attributed ++ " outcome=" ++ decision.outcome := by
  have hport : decision.key.port = event.destinationPort := congrArg DestKey.port hkey
  rw [← hport]
  rfl

/-- Every sink of every event tells the same, in every state without poison. -/
theorem sinks_agree (clock : DecideClock) (expireNow stampNow : Instant) (reads : ProcReads)
    (event : TcpConnectEvent) {shared : Shared} (hclean : shared.Clean) :
    ∃ decided decision,
      Observe.decideSection clock reads event shared = some (decided, decision) ∧
      SinksAgree clock expireNow stampNow reads event shared
        (Observe.handleEvent clock expireNow stampNow reads event shared) decision := by
  refine ⟨_, _, NotedOp.decideSection_of_clean hclean clock reads event, ?_⟩
  rw [NotedOp.handleEvent_of_clean hclean]
  have hkey := Policy.key_decide clock reads event shared.policyState
  have hcounted : ∀ decision : Decision, StatsStore.CountsOne decision.outcome shared.stats.value
      (decision.stats.elim shared.stats.value.recordUnattributedDeny shared.stats.value.record) := by
    intro decision
    rw [← Decision.statsOp_step]
    refine ⟨StatsStore.toNat_connections_step _ _, ?_⟩
    simp only [StatsStore.toNat_denied_step, Decision.denies_statsOp_iff]
  cases hattributed : Policy.attributeEvent reads event shared.policyState.cache with
  | error error =>
    have hdecide : Policy.decide clock reads event shared.policyState = (shared.policyState,
        { key := Policy.destKey event, packetVerdict := .drop, attributed := false,
          promptId := none, stats := none }) := by
      simp only [Policy.decide, hattributed]
    rw [hdecide]
    refine ⟨rfl, PendingTable.get_insert_self .., rfl, ?_, ?_, hcounted _, fun hfalse ↦ ?_,
      fun _ ↦ ⟨rfl, rfl, rfl⟩, .inr ⟨?_, rfl, .inl rfl⟩, none, by simp, .refl _ _⟩
    · exact List.mem_cons_of_mem _ List.mem_cons_self
    · exact iff_of_false (by simp) (by simp [Decision.outcome])
    · cases hfalse
    · simp [Decision.outcome]
  | ok attributed =>
    obtain ⟨identity, cache⟩ := attributed
    have hdecide := Policy.decide_of_attributed clock reads event shared.policyState hattributed
    rw [hdecide] at hkey ⊢
    have htold := Policy.told_decideAttributed clock event shared.policyState identity cache
    have hasks := Policy.decideAttributed_asks clock event shared.policyState identity cache
    have hflag := Policy.attributed_decideAttributed clock event
      { shared.policyState with cache } identity
    generalize Policy.decideAttributed clock identity event { shared.policyState with cache } =
      decided at *
    obtain ⟨hit, hstats, hexecutable, hipv4, hport, huid⟩ := htold.stats
    have hverdict : hit.verdict = decided.2.outcome := by rw [Decision.outcome, hstats]; rfl
    refine ⟨?_, ?_, ?_, htold.word, htold.accept_iff, hcounted _, fun _ ↦ ?_, fun hfalse ↦ ?_,
      hasks.1, hasks.2⟩
    · rw [← hkey]
      rfl
    · rw [← hkey]
      exact PendingTable.get_insert_self ..
    · exact congrArg (fun message ↦ shared.audit.value ++ [message])
        (Observe.auditMessage_of_key hkey)
    · refine ⟨identity, cache, hit, hattributed, hexecutable, hipv4, hport, huid, hverdict, ?_, ?_, ?_⟩
      · rw [hstats]
        rfl
      · rw [hstats]
        exact StatsStore.rowsTell_record _ hit
      · change decided.1.recent.verdictOf _ _ _ _ = _
        rw [htold.recorded]
        exact RecentConnects.verdictOf_record ..
    · rw [hflag] at hfalse
      cases hfalse

/-- The prompt for a program without rules is told to every sink of a daemon that has just started. -/
theorem started_sinks_agree : NotedOp.started.Clean ∧ ∃ decided decision,
    Observe.decideSection (.at 0) curlReads curlEvent NotedOp.started = some (decided, decision) ∧
    SinksAgree (.at 0) 0 0 curlReads curlEvent NotedOp.started
      (Observe.handleEvent (.at 0) 0 0 curlReads curlEvent NotedOp.started) decision :=
  ⟨NotedOp.started_clean, sinks_agree (.at 0) 0 0 curlReads curlEvent NotedOp.started_clean⟩

/-! ### The counters stop -/

/-- A process that is gone. -/
def goneReads : ProcReads :=
  { stat := .error "No such process", exe := .error "No such process",
    cmdline := .error "No such process", status := .error "No such process",
    cgroup := .error "No such process" }

/-- The event of a process that is gone, handled by a daemon. -/
def handleGone (shared : Shared) : Shared :=
  Observe.handleEvent (.at 0) 0 0 goneReads curlEvent shared

theorem connections_handleGone (events : ℕ) :
    (handleGone^[events] NotedOp.started).Clean ∧
      (handleGone^[events] NotedOp.started).stats.value.connections.toNat =
        min events (2 ^ 64 - 1) := by
  induction events with
  | zero => exact ⟨NotedOp.started_clean, rfl⟩
  | succ events ih =>
    obtain ⟨hclean, hcount⟩ := ih
    rw [Function.iterate_succ_apply']
    generalize handleGone^[events] NotedOp.started = shared at *
    refine ⟨(NotedOp.unharmed_event ⟨hclean, rfl⟩ (.at 0) 0 0 goneReads curlEvent).2.1, ?_⟩
    have hstep : (handleGone shared).stats.value.connections.toNat =
        min (shared.stats.value.connections.toNat + 1) (2 ^ 64 - 1) := by
      rw [handleGone, NotedOp.handleEvent_of_clean hclean]
      dsimp only
      rw [← Decision.statsOp_step]
      exact StatsStore.toNat_connections_step _ _
    rw [hstep, hcount]
    omega

/-- After as many events as a counter can count, the next one is not counted. -/
theorem last_event_uncounted : ∃ shared,
    shared = handleGone^[2 ^ 64 - 1] NotedOp.started ∧ shared.Clean ∧
      (handleGone shared).stats.value.connections.toNat ≠
        shared.stats.value.connections.toNat + 1 := by
  refine ⟨_, rfl, (connections_handleGone (2 ^ 64 - 1)).1, ?_⟩
  generalize hevents : 2 ^ 64 - 1 = events
  have hbefore := (connections_handleGone events).2
  have hafter := (connections_handleGone (events + 1)).2
  rw [Function.iterate_succ_apply'] at hafter
  omega

end InterFire
