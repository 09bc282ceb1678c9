import InterFire.Library.Run
import InterFire.Policy

/-!
# No accept without consent

The operations that touch the decision state, in any order and at any times: decisions, answers,
prompt lists, rule changes and name notes. The allow tokens of the prompt queue are the tokens of a
`Run.Ledger` (`tokenLedger`): an answer grants, a decision consumes, and everything else only lets
tokens expire. `accept_has_consent` reads the accounting theorem of the ledger at the decisions.

The clock readings are part of the operations. A run under a monotone clock is one in which they do
not decrease; nothing here needs that.
-/

set_option autoImplicit false
set_option relaxedAutoImplicit false

namespace InterFire

open Policy Run

/-- One operation on the decision state. -/
inductive PolicyOp
  | decide (clock : DecideClock) (reads : ProcReads) (event : TcpConnectEvent)
  | answer (expireNow insertNow : Instant) (id : UInt64) (verdict : Verdict) (scope : RuleScope)
  | listPending (now : Instant)
  | ruleInsert (rule : Rule)
  | ruleRemove (id : UInt64)
  | dnsNote (expireNow stampNow : Instant) (hostname : String) (ipv4 : UInt32)
    (ttl : Option Duration)

namespace PolicyOp

/-- The state after an operation. A refused rule and a note that panics change nothing. -/
def step (state : PolicyState) : PolicyOp → PolicyState
  | decide clock reads event => (Policy.decide clock reads event state).1
  | answer expireNow insertNow id verdict scope =>
    { state with prompts := (state.prompts.answer expireNow insertNow id verdict scope).1 }
  | listPending now => { state with prompts := (state.prompts.listPending now).1 }
  | ruleInsert rule =>
    match state.rules.insert rule with
    | .ok rules => { state with rules }
    | .error _ => state
  | ruleRemove id => { state with rules := (state.rules.remove id).1 }
  | dnsNote expireNow stampNow hostname ipv4 ttl =>
    match state.dns.observe expireNow stampNow hostname ipv4 ttl with
    | some dns => { state with dns }
    | none => state

/-- The token an operation grants: the key of its answer and the instant it was created. -/
def granted (state : PolicyState) : PolicyOp → Option (PromptKey × Instant)
  | answer expireNow insertNow id verdict scope =>
    match (state.prompts.answer expireNow insertNow id verdict scope).2 with
    | .ok answered => if answered.grantsOnce then some (answered.key, insertNow) else none
    | .error _ => none
  | _ => none

/-- The key whose token an operation consumes. -/
def consumed (state : PolicyState) : PolicyOp → Option PromptKey
  | decide clock reads event => consumedToken clock reads event state
  | _ => none

/-- A token held after an operation was granted by it, or was held before and not consumed.
Assumes: the token is held afterwards. -/
theorem held_step (state : PolicyState) (op : PolicyOp) (key : PromptKey) (inserted : Instant)
    (hheld : (op.step state).prompts.onceAllows.get key = some inserted) :
    op.granted state = some (key, inserted) ∨
      (state.prompts.onceAllows.get key = some inserted ∧ op.consumed state ≠ some key) := by
  cases op with
  | decide clock reads event => exact .inr (held_decide clock reads event state hheld)
  | answer expireNow insertNow id verdict scope =>
    rcases PromptQueue.held_answer hheld with ⟨answered, hanswer, hgrants, rfl, rfl⟩ | hbefore
    · exact .inl (by simp [granted, hanswer, hgrants])
    · exact .inr ⟨hbefore, by simp [consumed]⟩
  | listPending now =>
    exact .inr ⟨PromptQueue.tokensLe_listPending state.prompts now key inserted hheld,
      by simp [consumed]⟩
  | ruleInsert rule =>
    refine .inr ⟨?_, by simp [consumed]⟩
    simp only [step] at hheld
    split at hheld <;> exact hheld
  | ruleRemove id => exact .inr ⟨hheld, by simp [consumed]⟩
  | dnsNote expireNow stampNow hostname ipv4 ttl =>
    refine .inr ⟨?_, by simp [consumed]⟩
    simp only [step] at hheld
    split at hheld <;> exact hheld

/-- Only a held token is consumed. -/
theorem held_of_consumed (state : PolicyState) (op : PolicyOp) (key : PromptKey)
    (hconsumed : op.consumed state = some key) :
    ∃ inserted, state.prompts.onceAllows.get key = some inserted := by
  cases op with
  | decide clock reads event =>
    obtain ⟨inserted, hget, _⟩ := held_of_consumedToken clock reads event state hconsumed
    exact ⟨inserted, hget⟩
  | answer expireNow insertNow id verdict scope => cases hconsumed
  | listPending now => cases hconsumed
  | ruleInsert rule => cases hconsumed
  | ruleRemove id => cases hconsumed
  | dnsNote expireNow stampNow hostname ipv4 ttl => cases hconsumed

/-- No operation changes the lifetime of tokens. -/
theorem ttl_step (state : PolicyState) (op : PolicyOp) :
    (op.step state).prompts.ttl = state.prompts.ttl := by
  cases op with
  | decide clock reads event => exact ttl_decide clock reads event state
  | answer expireNow insertNow id verdict scope => exact PromptQueue.ttl_answer ..
  | listPending now => rfl
  | ruleInsert rule => simp only [step]; split <;> rfl
  | ruleRemove id => rfl
  | dnsNote expireNow stampNow hostname ipv4 ttl => simp only [step]; split <;> rfl

end PolicyOp

/-- The allow tokens as single-use tokens. -/
def tokenLedger : Ledger PolicyState PolicyOp PromptKey Instant where
  step := PolicyOp.step
  held state key := state.prompts.onceAllows.get key
  granted state op := op.granted state
  consumed state op := op.consumed state
  held_step := PolicyOp.held_step
  held_of_consumed := PolicyOp.held_of_consumed

section Runs

variable (start : PolicyState) (ops : List PolicyOp)

/-- The decision state before the operation at an index of a run. -/
def policyAt (index : ℕ) : PolicyState := stateAt PolicyOp.step start ops index

/-- The decision at an index accepts, and it consumes the allow token of the key while the clock
shows `checkNow`. -/
def TokenAcceptAt (index : ℕ) (key : PromptKey) (checkNow : Instant) : Prop :=
  ∃ clock reads event, ops[index]? = some (.decide clock reads event) ∧
    (Policy.decide clock reads event (policyAt start ops index)).2.packetVerdict = .accept ∧
    consumedToken clock reads event (policyAt start ops index) = some key ∧
    checkNow = clock.takeCheck

/-- The operation at an index is the first answer to a prompt pending under the key, it says allow
once, and it creates the token of the key at `grantNow`. -/
def OnceAnswerAt (index : ℕ) (key : PromptKey) (grantNow : Instant) : Prop :=
  ∃ expireNow id, ops[index]? = some (.answer expireNow grantNow id .allow .once) ∧
    ((policyAt start ops index).prompts.answer expireNow grantNow id .allow .once).2 =
      .ok { id, key, verdict := .allow, scope := .once, duplicate := false } ∧
    ∃ prompt, ((policyAt start ops index).prompts.expire expireNow).prompts.get id = some prompt ∧
      prompt.state = .pending ∧ prompt.key = key

theorem ttl_policyAt (index : ℕ) : (policyAt start ops index).prompts.ttl = start.prompts.ttl := by
  refine stateAt_invariant PolicyOp.step start ops
    (fun state ↦ state.prompts.ttl = start.prompts.ttl) rfl (fun state op hstate ↦ ?_) index
  exact (PolicyOp.ttl_step state op).trans hstate

/-- A consumption of the ledger is an accept of a decision. -/
theorem consumedAt_iff (index : ℕ) (key : PromptKey) :
    tokenLedger.ConsumedAt start ops index key ↔ ∃ checkNow, TokenAcceptAt start ops index key
      checkNow := by
  constructor
  · rintro ⟨op, hop, hconsumed⟩
    cases op with
    | decide clock reads event =>
      exact ⟨_, clock, reads, event, hop,
        accept_of_consumedToken clock reads event _ hconsumed, hconsumed, rfl⟩
    | answer expireNow insertNow id verdict scope => cases hconsumed
    | listPending now => cases hconsumed
    | ruleInsert rule => cases hconsumed
    | ruleRemove id => cases hconsumed
    | dnsNote expireNow stampNow hostname ipv4 ttl => cases hconsumed
  · rintro ⟨checkNow, clock, reads, event, hop, _, hconsumed, _⟩
    exact ⟨_, hop, hconsumed⟩

/-- A grant of the ledger is a first answer that says allow once. Assumes: the ledger grants. -/
theorem onceAnswerAt_of_grantedAt {index : ℕ} {key : PromptKey} {grantNow : Instant}
    (hgranted : tokenLedger.GrantedAt start ops index key grantNow) :
    OnceAnswerAt start ops index key grantNow := by
  obtain ⟨op, hop, hgranted⟩ := hgranted
  cases op with
  | answer expireNow insertNow id verdict scope =>
    simp only [tokenLedger, PolicyOp.granted] at hgranted
    split at hgranted
    · next answered hanswer =>
      split_ifs at hgranted with hgrants
      obtain ⟨rfl, rfl⟩ := Prod.mk.inj (Option.some.inj hgranted)
      obtain ⟨rfl, rfl, hanswered, hprompt⟩ := PromptQueue.asked_of_grantsOnce hanswer hgrants
      exact ⟨expireNow, id, hop, hanswer.trans (congrArg _ hanswered), hprompt⟩
    · cases hgranted
  | decide clock reads event => cases hgranted
  | listPending now => cases hgranted
  | ruleInsert rule => cases hgranted
  | ruleRemove id => cases hgranted
  | dnsNote expireNow stampNow hostname ipv4 ttl => cases hgranted

end Runs

/-- No accept without consent. From any rules, caches and names and an empty prompt queue, along
every run: an accept is attributed and is allowed by the rules at that moment or consumes the allow
token of its own key; the accepts by token map injectively to earlier first answers allow once for
the same key, each no older than the lifetime; and for every key the accepts by token are at most as
many as those answers. Assumes: the queue is bounded. -/
theorem accept_has_consent (rules : RuleSet) (cache : ProcessCache) (dns : DnsCache)
    (recent : RecentConnects) (capacity : ℕ) (hcapacity : 0 < capacity) (ttl : Duration)
    (ops : List PolicyOp) :
    let start : PolicyState :=
      { rules, cache, prompts := .new capacity hcapacity ttl, dns, recent }
    (∀ index clock reads event, ops[index]? = some (.decide clock reads event) →
      (Policy.decide clock reads event (policyAt start ops index)).2.packetVerdict = .accept →
      (Policy.decide clock reads event (policyAt start ops index)).2.attributed = true ∧
        ∃ identity cache,
          attributeEvent reads event (policyAt start ops index).cache = .ok (identity, cache) ∧
          (AllowedByRules clock event (policyAt start ops index) identity ∨
            TokenAcceptAt start ops index (promptKey identity event) clock.takeCheck)) ∧
    (∃ source : ℕ → ℕ,
      Set.InjOn source {index | ∃ key checkNow, TokenAcceptAt start ops index key checkNow} ∧
      ∀ index key checkNow, TokenAcceptAt start ops index key checkNow →
        source index < index ∧
          ∃ grantNow, OnceAnswerAt start ops (source index) key grantNow ∧
            checkNow ≤ grantNow + ttl) ∧
    ∀ key, {index | ∃ checkNow, TokenAcceptAt start ops index key checkNow}.ncard ≤
      {index | ∃ grantNow, OnceAnswerAt start ops index key grantNow}.ncard := by
  intro start
  have hempty : ∀ key, tokenLedger.held start key = none := fun key ↦ FiniteMap.get_empty key
  refine ⟨fun index clock reads event hop haccept ↦ ?_, ?_, fun key ↦ ?_⟩
  · obtain ⟨hattributed, identity, cache, hidentity, hreason⟩ :=
      decide_accept_cases clock reads event _ haccept
    refine ⟨hattributed, identity, cache, hidentity, ?_⟩
    rcases hreason with hconsumed | hallowed
    · exact .inr ⟨clock, reads, event, hop, haccept, hconsumed, rfl⟩
    · exact .inl hallowed
  · obtain ⟨source, hinjective, hsource⟩ := tokenLedger.consumption_injection start ops hempty
    refine ⟨source, ?_, ?_⟩
    · simpa only [consumedAt_iff] using hinjective
    · rintro index key checkNow ⟨clock, reads, event, hop, haccept, hconsumed, rfl⟩
      obtain ⟨hbefore, inserted, hheld, hgranted⟩ := hsource index key ⟨_, hop, hconsumed⟩
      refine ⟨hbefore, inserted, onceAnswerAt_of_grantedAt start ops hgranted, ?_⟩
      -- The token consumed is the one the ledger names, so its age is the one the take checked.
      obtain ⟨checked, hchecked, hfresh⟩ := held_of_consumedToken clock reads event _ hconsumed
      obtain rfl := Option.some.inj (hchecked.symm.trans hheld)
      rwa [ttl_policyAt] at hfresh
  · have hcount := tokenLedger.ncard_consumed_le_ncard_granted start ops hempty key
    simp only [consumedAt_iff] at hcount
    refine hcount.trans (Set.ncard_le_ncard ?_ ?_)
    · rintro index ⟨grantNow, hgranted⟩
      exact ⟨grantNow, onceAnswerAt_of_grantedAt start ops hgranted⟩
    · refine (Set.finite_lt_nat ops.length).subset ?_
      rintro index ⟨_, _, _, hop, _⟩
      exact (List.getElem?_eq_some_iff.mp hop).1

/-- The files of a process with pid 7. -/
def curlReads : ProcReads :=
  { stat := .ok "7 (curl) S 1 7 7 0 0 0 0 0 0 0 0 0 0 0 20 0 1 0 99"
    exe := .ok "/usr/bin/curl"
    cmdline := .ok "curl"
    status := .ok "Uid:\t1000"
    cgroup := .ok "0::/" }

/-- A connect of that process. -/
def curlEvent : TcpConnectEvent :=
  { pid := 7, processStartTicks := 0, destinationIpv4 := 16909060, destinationPort := 443,
    reserved := 0 }

/-- A connect that prompts, the answer allow once, and the connect again. -/
def curlRun : List PolicyOp :=
  [.decide (.at 0) curlReads curlEvent, .answer 1 1 1 .allow .once,
    .decide (.at 2) curlReads curlEvent]

/-- The second connect of `curlRun` is accepted by the token of the answer before it. -/
theorem accept_has_consent_curlRun :
    let start : PolicyState :=
      { rules := .default, cache := .new 1 Nat.one_pos, prompts := .new 1 Nat.one_pos 60,
        dns := .new 1 Nat.one_pos 60, recent := .new 1 1 Nat.one_pos Nat.one_pos }
    TokenAcceptAt start curlRun 2 ⟨"/usr/bin/curl", 16909060, 443⟩ 2 ∧
      ∃ grant < 2, ∃ grantNow,
        OnceAnswerAt start curlRun grant ⟨"/usr/bin/curl", 16909060, 443⟩ grantNow ∧
          2 ≤ grantNow + 60 := by
  intro start
  have haccept : TokenAcceptAt start curlRun 2 ⟨"/usr/bin/curl", 16909060, 443⟩ 2 :=
    ⟨.at 2, curlReads, curlEvent, rfl, by decide, by decide, rfl⟩
  obtain ⟨_, ⟨source, _, hsource⟩, _⟩ := accept_has_consent .default (.new 1 Nat.one_pos)
    (.new 1 Nat.one_pos 60) (.new 1 1 Nat.one_pos Nat.one_pos) 1 Nat.one_pos 60 curlRun
  obtain ⟨hbefore, hgrant⟩ := hsource 2 _ _ haccept
  exact ⟨haccept, source 2, hbefore, hgrant⟩

end InterFire
