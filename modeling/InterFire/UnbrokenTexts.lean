import InterFire.ListFrames
import InterFire.Serving

/-!
# Texts without a newline

A frame of the daemon is a line, and the texts in it come from requests, whose fields are words, from
the rules document, and from `/proc`. `Unbroken` says that a text has no newline, and the
`SingleLined` properties that the texts of a part of the daemon's state have none.

`Policy.singleLined_decide` and `ControlState.singleLined_dispatch` are the two steps that bring in
texts: a decision brings in the process that its event is attributed to, and a request brings in its
words.
-/

set_option autoImplicit false
set_option relaxedAutoImplicit false

namespace InterFire

/-! ### Texts without a newline -/

/-- A text without a newline. -/
def Unbroken (text : String) : Prop := '\n' ∉ text.toList

instance (text : String) : Decidable (Unbroken text) := inferInstanceAs (Decidable (_ ∉ _))

@[simp] theorem unbroken_append {first second : String} :
    Unbroken (first ++ second) ↔ Unbroken first ∧ Unbroken second := by
  simp [Unbroken, not_or]

@[simp] theorem unbroken_decimal (value : ℕ) : Unbroken (decimal value) := by
  rw [Unbroken, toList_decimal]
  exact Text.not_mem_toDigits (by decide) value

theorem unbroken_of_isWord {text : String} (hword : Text.IsWord text) : Unbroken text := by
  intro hmem
  exact absurd (hword.2 '\n' hmem) (by decide)

theorem unbroken_intercalate {separator : String} {texts : List String}
    (hseparator : Unbroken separator) (htexts : ∀ text ∈ texts, Unbroken text) :
    Unbroken (separator.intercalate texts) := by
  induction texts with
  | nil => simp [Unbroken]
  | cons first rest ih =>
    have hfirst : Unbroken first := htexts first List.mem_cons_self
    have hrest : Unbroken (separator.intercalate rest) :=
      ih fun text htext ↦ htexts text (List.mem_cons_of_mem first htext)
    by_cases hempty : rest = []
    · rwa [hempty, String.intercalate_singleton]
    · rw [String.intercalate_cons_of_ne_nil hempty, unbroken_append, unbroken_append]
      exact ⟨⟨hfirst, hseparator⟩, hrest⟩

theorem unbroken_escapeField {text : String} (htext : Unbroken text) :
    Unbroken (escapeField text) := by
  intro hmem
  obtain ⟨_, _, hvalue | hcode⟩ := mem_escapeField hmem
  · exact htext hvalue
  · exact absurd hcode (by decide)

theorem unbroken_toAsciiLowercase {text : String} (htext : Unbroken text) :
    Unbroken (Text.toAsciiLowercase text) := by
  rw [Unbroken, Text.mem_toAsciiLowercase_iff (by decide)]
  exact htext

theorem unbroken_toText (octets : Octets) : Unbroken octets.toText := by
  have hdigits := @Text.not_mem_toDigits '\n' (by decide)
  simp [Unbroken, Octets.toText, Octets.toChars, hdigits]

/-- A text without a newline, with one at its end, is one line. -/
theorem oneLine_append {text : String} (htext : Unbroken text) :
    Text.OneLine (text ++ "\n").toList :=
  ⟨text.toList, String.toList_append, htext⟩

/-- The texts of a response that are not fixed by its kind. -/
def Response.texts : Response → List String
  | pong => []
  | status body =>
    [body.enforcement, body.observation, body.traffic, body.trafficMachine, body.trafficUser,
      body.trafficEffective]
  | error message => [message]
  | rules value => [value]
  | prompts value => [value]
  | dns value => [value]
  | audit value => [value]
  | subscribed id => [id]
  | processes value => [value]
  | network body => [body.table, body.rule]
  | statsSummary body => [body.version, body.git]
  | statsHosts value => [value]
  | statsProcs value => [value]
  | statsAddrs value => [value]
  | statsPorts value => [value]
  | statsUsers value => [value]

/-- A response is one line. Assumes: its texts have no newline. -/
theorem Response.oneLine_encode {response : Response}
    (htexts : ∀ text ∈ response.texts, Unbroken text) : Text.OneLine response.encode.toList := by
  cases response with
  | pong => exact oneLine_append (show Unbroken "v1 pong" by decide)
  | status body =>
    change ∀ text ∈ [body.enforcement, body.observation, body.traffic, body.trafficMachine,
      body.trafficUser, body.trafficEffective], Unbroken text at htexts
    simp only [List.forall_mem_cons] at htexts
    refine oneLine_append ?_
    simp only [unbroken_append, unbroken_decimal, htexts, and_true]
    decide
  | network body =>
    change ∀ text ∈ [body.table, body.rule], Unbroken text at htexts
    simp only [List.forall_mem_cons] at htexts
    have hstate : Unbroken body.state.asStr := by cases body.state <;> decide
    refine oneLine_append ?_
    simp only [unbroken_append, unbroken_decimal, htexts, hstate, and_true]
    decide
  | statsSummary body =>
    change ∀ text ∈ [body.version, body.git], Unbroken text at htexts
    simp only [List.forall_mem_cons] at htexts
    refine oneLine_append ?_
    simp only [unbroken_append, unbroken_decimal, htexts, and_true]
    decide
  | error text | rules text | prompts text | dns text | audit text | subscribed text
  | processes text | statsHosts text | statsProcs text | statsAddrs text | statsPorts text
  | statsUsers text =>
    have htext : Unbroken text := htexts text List.mem_cons_self
    refine oneLine_append (unbroken_append.mpr ⟨?_, htext⟩)
    decide

/-! ### Texts that the daemon keeps -/

/-- The executable and the arguments of a process have no newline. -/
structure ProcessIdentity.SingleLined (identity : ProcessIdentity) : Prop where
  executable : Unbroken identity.executable
  commandLine : ∀ argument ∈ identity.commandLine, Unbroken argument

/-- The texts under which a connection is counted have no newline. -/
structure ConnectStats.SingleLined (stats : ConnectStats) : Prop where
  executable : Unbroken stats.executable
  host : Unbroken stats.host
  ipv4 : Unbroken stats.ipv4
  verdict : Unbroken stats.verdict

def Decision.SingleLined (decision : Decision) : Prop :=
  ∀ stats, decision.stats = some stats → stats.SingleLined

def ProcessCache.SingleLined (cache : ProcessCache) : Prop :=
  ∀ key identity, cache.entries.get key = some identity → identity.SingleLined

def DnsCache.SingleLined (cache : DnsCache) : Prop :=
  ∀ ipv4 entry, cache.byIp.get ipv4 = some entry → Unbroken entry.hostname

def RecentConnects.SingleLined (recent : RecentConnects) : Prop :=
  ∀ key dests, recent.entries.get key = some dests → ∀ dest ∈ dests, Unbroken dest.verdict

/-- The texts that decisions work on have no newline. -/
structure PolicyState.SingleLined (state : PolicyState) : Prop where
  rules : ∀ rule ∈ state.rules.rules, Unbroken rule.executable
  cache : state.cache.SingleLined
  prompts : state.prompts.Each fun key _ ↦ Unbroken key.executable
  dns : state.dns.SingleLined
  recent : state.recent.SingleLined

/-- The keys of a dimension have no newline. -/
def StatsDimension.SingleLined (dimension : StatsDimension String) : Prop :=
  ∀ key counters, dimension.counters.get key = some counters → Unbroken key

structure StatsStore.SingleLined (store : StatsStore) : Prop where
  hosts : store.hosts.SingleLined
  procs : store.procs.SingleLined
  addrs : store.addrs.SingleLined

/-- What the policy locks hold. -/
def PolicyLocks.values (locks : PolicyLocks) : PolicyState :=
  ⟨locks.rules.value, locks.processCache.value, locks.prompts.value, locks.dns.value,
    locks.recent.value⟩

structure Shared.SingleLined (shared : Shared) : Prop where
  policy : shared.toPolicyLocks.values.SingleLined
  stats : shared.stats.value.SingleLined

/-! ### Deciding -/

/-- A process that is cached is the one that was inserted, or was cached before. -/
theorem ProcessCache.get_of_get_insert {cache : ProcessCache} {inserted identity : ProcessIdentity}
    {key : UInt32 × UInt64} (hget : (cache.insert inserted).entries.get key = some identity) :
    identity = inserted ∨ cache.entries.get key = some identity := by
  by_cases hpresent : (cache.entries.get (inserted.pid, inserted.startTicks)).isSome
  · rw [insert, if_pos hpresent] at hget
    exact .inr hget
  · rw [insert, if_neg hpresent] at hget
    dsimp only at hget
    rw [FiniteMap.get_insert] at hget
    split_ifs at hget with hkey hfull
    · exact .inl (Option.some.inj hget).symm
    · split at hget
      · rw [FiniteMap.get_remove] at hget
        split_ifs at hget
        exact .inr hget
      · exact .inr hget
    · exact .inr hget

/-- The destinations in a row are those it had, up to their verdicts, and the new one. -/
theorem RecentConnects.mem_of_mem_pushDest {perKey : ℕ} {queue : List RecentDest}
    {pushed dest : RecentDest} (hdest : dest ∈ pushDest perKey queue pushed) :
    dest.verdict = pushed.verdict ∨ dest ∈ queue := by
  rcases pushDest_cases perKey queue pushed with
    ⟨left, row, right, rfl, -, -, hpush⟩ | ⟨-, hpush⟩
  · rw [hpush] at hdest
    rcases List.mem_append.mp hdest with hleft | hright
    · exact .inr (List.mem_append_left _ hleft)
    · rcases List.mem_cons.mp hright with rfl | hright
      · exact .inl rfl
      · exact .inr (List.mem_append_right _ (List.mem_cons_of_mem row hright))
  · rw [hpush] at hdest
    rcases List.mem_append.mp hdest with hkept | hnew
    · exact .inr (List.mem_of_mem_drop hkept)
    · exact .inl (congrArg RecentDest.verdict (List.mem_singleton.mp hnew))

/-- The destinations of a process are those it had, up to their verdicts, and the recorded one. -/
theorem RecentConnects.mem_of_get_record {recent : RecentConnects} {pid : UInt32}
    {startTicks : UInt64} {recorded dest : RecentDest} {key : UInt32 × UInt64}
    {dests : List RecentDest}
    (hget : (recent.record pid startTicks recorded).entries.get key = some dests)
    (hdest : dest ∈ dests) :
    dest.verdict = recorded.verdict ∨
      ∃ before, recent.entries.get key = some before ∧ dest ∈ before := by
  rcases FiniteMap.get_of_get_update_makeRoom hget with ⟨rfl, before, hbefore, rfl⟩ | hkept
  · rcases mem_of_mem_pushDest hdest with hverdict | hmem
    · exact .inl hverdict
    · rcases hbefore with rfl | hbefore
      · cases hmem
      · exact .inr ⟨before, hbefore, hmem⟩
  · exact .inr ⟨dests, hkept, hdest⟩

/-- The keys of a dimension are those it had and the counted one. -/
theorem StatsDimension.SingleLined.bump {dimension : StatsDimension String}
    (hdimension : dimension.SingleLined) {key : String} (hkey : Unbroken key) (verdict : String) :
    (dimension.bump key verdict).SingleLined := by
  intro other counters hget
  rcases FiniteMap.get_of_get_update_makeRoom hget with ⟨rfl, _⟩ | hkept
  · exact hkey
  · exact hdimension other counters hkept

theorem StatsStore.SingleLined.record {store : StatsStore} (hstore : store.SingleLined)
    {hit : ConnectStats} (hhit : hit.SingleLined) : (store.record hit).SingleLined where
  hosts := hstore.hosts.bump hhit.host _
  procs := hstore.procs.bump hhit.executable _
  addrs := hstore.addrs.bump hhit.ipv4 _

theorem DnsCache.SingleLined.expire {cache : DnsCache} (hcache : cache.SingleLined)
    (now : Instant) : (cache.expire now).SingleLined := by
  intro ipv4 entry hget
  simp only [DnsCache.expire, FiniteMap.get_retain, Option.filter_eq_some_iff] at hget
  exact hcache ipv4 entry hget.1

theorem DnsCache.SingleLined.observe {cache after : DnsCache} (hcache : cache.SingleLined)
    {expireNow stampNow : Instant} {hostname : String} (hhostname : Unbroken hostname)
    {ipv4 : UInt32} {ttl : Option Duration}
    (hobserve : cache.observe expireNow stampNow hostname ipv4 ttl = some after) :
    after.SingleLined := by
  obtain ⟨hnew, hothers⟩ := DnsCache.get_observe hobserve
  intro other entry hget
  by_cases hsame : other = ipv4
  · subst hsame
    obtain rfl := Option.some.inj (hnew.symm.trans hget)
    exact unbroken_toAsciiLowercase hhostname
  · exact hcache other entry (hothers other hsame entry hget)

namespace Policy

variable {clock : DecideClock} {reads : ProcReads} {event : TcpConnectEvent} {state : PolicyState}
  {identity : ProcessIdentity}

theorem singleLined_recordRecent {recent : RecentConnects} (hrecent : recent.SingleLined)
    {verdict : String} (hverdict : Unbroken verdict) :
    (recordRecent recent identity event verdict).SingleLined := by
  intro key dests hget dest hdest
  rcases RecentConnects.mem_of_get_record hget hdest with hsame | ⟨before, hbefore, hmem⟩
  · rwa [hsame]
  · exact hrecent key before hbefore dest hmem

/-- A connection is counted under texts without a newline. Assumes: its process and the names have
none. -/
theorem singleLined_statsOf (hidentity : identity.SingleLined) {dns : DnsCache}
    (hdns : dns.SingleLined) {now : Instant} {verdict : String} (hverdict : Unbroken verdict) :
    (statsOf identity event (connectionFrom identity event now dns).2 verdict).SingleLined where
  executable := hidentity.executable
  host := by
    have hexpired := hdns.expire now
    change Unbroken (Option.getD (((dns.expire now).byIp.get event.destinationIpv4).map
      DnsEntry.hostname) event.destinationOctets.toText)
    cases hget : (dns.expire now).byIp.get event.destinationIpv4 with
    | none => exact unbroken_toText _
    | some entry => exact hexpired _ entry hget
  ipv4 := unbroken_toText _
  verdict := hverdict

/-- A decision by a token keeps to texts without a newline. Assumes: its process and the state have
none. -/
theorem singleLined_decideByToken (hidentity : identity.SingleLined) (hstate : state.SingleLined)
    {packetVerdict : PacketVerdict} {label : String} (hlabel : Unbroken label) :
    (decideByToken clock identity event state packetVerdict label).1.SingleLined ∧
      (decideByToken clock identity event state packetVerdict label).2.SingleLined := by
  refine ⟨⟨hstate.rules, hstate.cache, hstate.prompts, hstate.dns.expire _,
    singleLined_recordRecent hstate.recent hlabel⟩, ?_⟩
  rintro stats ⟨⟩
  exact singleLined_statsOf hidentity hstate.dns hlabel

/-- The label of a decision by the rules, and the prompts after it. Assumes: the prompts and the key
have no newline. -/
theorem singleLined_applyRuleVerdict {key : PromptKey} (hkey : Unbroken key.executable)
    {prompts : PromptQueue} (hprompts : prompts.Each fun key _ ↦ Unbroken key.executable)
    (verdict : Verdict) :
    (applyRuleVerdict clock key prompts verdict).1.Each (fun key _ ↦ Unbroken key.executable) ∧
      Unbroken (applyRuleVerdict clock key prompts verdict).2.2.2 := by
  have hallow : Unbroken "allow" := by decide
  have hdeny : Unbroken "deny" := by decide
  have hprompt : Unbroken "prompt" := by decide
  cases verdict with
  | allow => exact ⟨hprompts, hallow⟩
  | deny => exact ⟨hprompts, hdeny⟩
  | prompt =>
    have henqueue := @PromptQueue.each_enqueue _ prompts clock.enqueueExpire clock.enqueueCreate
      key hprompts fun _ _ ↦ hkey
    simp only [applyRuleVerdict]
    split <;> next heq => rw [heq] at henqueue; exact ⟨henqueue, hprompt⟩

theorem singleLined_decideByRules (hidentity : identity.SingleLined)
    (hstate : state.SingleLined) :
    (decideByRules clock identity event state).1.SingleLined ∧
      (decideByRules clock identity event state).2.SingleLined := by
  obtain ⟨hprompts, hlabel⟩ := @singleLined_applyRuleVerdict clock (promptKey identity event)
    hidentity.executable state.prompts hstate.prompts
    (state.rules.verdictFor (connectionFrom identity event clock.hostname state.dns).2)
  refine ⟨⟨hstate.rules, hstate.cache, hprompts, hstate.dns.expire _,
    singleLined_recordRecent hstate.recent hlabel⟩, ?_⟩
  rintro stats ⟨⟩
  exact singleLined_statsOf hidentity hstate.dns hlabel

theorem singleLined_decideAttributed (hidentity : identity.SingleLined)
    (hstate : state.SingleLined) :
    (decideAttributed clock identity event state).1.SingleLined ∧
      (decideAttributed clock identity event state).2.SingleLined := by
  have htaken : ({ state with
      prompts := (state.prompts.takeOnceAllow clock.takeExpire clock.takeCheck
        (promptKey identity event)).1 } : PolicyState).SingleLined :=
    ⟨hstate.rules, hstate.cache, PromptQueue.each_takeOnceAllow hstate.prompts clock.takeExpire
      clock.takeCheck (promptKey identity event), hstate.dns, hstate.recent⟩
  have hdenied : ({ state with
      prompts := ((state.prompts.takeOnceAllow clock.takeExpire clock.takeCheck
        (promptKey identity event)).1.consumeOnceDeny clock.denyExpire
          (promptKey identity event)).1 } : PolicyState).SingleLined :=
    ⟨hstate.rules, hstate.cache, PromptQueue.each_consumeOnceDeny htaken.prompts clock.denyExpire
      (promptKey identity event), hstate.dns, hstate.recent⟩
  unfold decideAttributed
  dsimp only
  split_ifs
  · exact singleLined_decideByToken hidentity htaken (by decide)
  · exact singleLined_decideByToken hidentity hdenied (by decide)
  · exact singleLined_decideByRules hidentity hdenied

/-- A decision keeps to texts without a newline. Assumes: the state has none, and neither does the
process that the event is attributed to. -/
theorem singleLined_decide (hstate : state.SingleLined)
    (hattributed : ∀ identity cache, attributeEvent reads event state.cache = .ok (identity, cache) →
      identity.SingleLined) :
    (decide clock reads event state).1.SingleLined ∧
      (decide clock reads event state).2.SingleLined := by
  cases hevent : attributeEvent reads event state.cache with
  | error error =>
    simp only [decide, hevent]
    refine ⟨hstate, fun stats hstats ↦ ?_⟩
    cases hstats
  | ok attributed =>
    obtain ⟨identity, cache⟩ := attributed
    have hidentity := hattributed identity cache hevent
    have hcache : cache.SingleLined := by
      unfold attributeEvent at hevent
      split at hevent
      · obtain ⟨_, rfl⟩ := Prod.mk.inj (Except.ok.inj hevent)
        exact hstate.cache
      · cases hresolve : Process.resolve reads event.pid event.processStartTicks with
        | error error =>
          rw [hresolve] at hevent
          cases hevent
        | ok resolved =>
          rw [hresolve] at hevent
          obtain ⟨rfl, rfl⟩ := Prod.mk.inj (Except.ok.inj hevent)
          intro key cached hget
          rcases ProcessCache.get_of_get_insert hget with rfl | hbefore
          · exact hidentity
          · exact hstate.cache key cached hbefore
    rw [decide_of_attributed clock reads event state hevent]
    exact singleLined_decideAttributed hidentity
      ⟨hstate.rules, hcache, hstate.prompts, hstate.dns, hstate.recent⟩

end Policy

/-! ### Requests -/

/-- An answer leaves the prompts alone, or answers one of them. -/
theorem PolicyStore.prompts_promptAnswer (toml : Toml) (inputs : PolicyInputs) (id : UInt64)
    (verdict scope : String) (store : PolicyStore) :
    (store.promptAnswer toml inputs id verdict scope).1.prompts = store.prompts ∨
      ∃ answer lifetime, (store.promptAnswer toml inputs id verdict scope).1.prompts =
        store.prompts.store (store.prompts.value.answer inputs.expireNow inputs.insertNow id answer
          lifetime).1 := by
  unfold promptAnswer
  split_ifs
  · exact .inl rfl
  split
  · exact .inl rfl
  next answer _ =>
  split
  · exact .inl rfl
  next lifetime _ =>
  split
  · exact .inl rfl
  next prompts hlock =>
  rw [← Mutex.value_of_lock hlock]
  refine .inr ⟨answer, lifetime, ?_⟩
  dsimp only
  split
  · rfl
  · rfl
  · split_ifs
    · exact prompts_changeRules _ _ _ _
    · rfl

/-- The rules after a request have no newline. Assumes: they and the prompts had none, and neither
has the executable of the request. -/
theorem PolicyStore.unbroken_handle {toml : Toml} {inputs : PolicyInputs} {store : PolicyStore}
    {request : PolicyRequest}
    (hrules : ∀ rule ∈ store.rules.value.rules, Unbroken rule.executable)
    (hprompts : store.prompts.value.Each fun key _ ↦ Unbroken key.executable)
    (hrequest : ∀ id executable verdict port, request = .ruleAdd id executable verdict port →
      Unbroken executable) :
    ∀ rule ∈ (store.handle toml inputs request).1.rules.value.rules,
      Unbroken rule.executable := by
  rcases handle_cases toml inputs store request with
    ⟨hsame, _⟩ | ⟨change, rules, saved, hmakes, haccepts, hchanged, _⟩
  · rwa [hsame]
  rw [hchanged, Mutex.value_store]
  rcases (RulesChange.apply_cases haccepts.2).2 with ⟨id, _, hremove⟩ | ⟨added, hadded, hinsert⟩
  · have hkept : (store.rules.value.remove id).1 = rules := congrArg Prod.fst hremove
    intro rule hrule
    rw [← hkept] at hrule
    exact hrules rule (List.mem_of_mem_filter hrule)
  · obtain ⟨rfl, _⟩ := RuleSet.of_insert_ok hinsert
    intro rule hrule
    rcases List.mem_append.mp hrule with hbefore | hnew
    · exact hrules rule hbefore
    · obtain rfl := List.mem_singleton.mp hnew
      cases request with
      | ruleAdd id executable verdict port =>
        obtain ⟨_, rfl⟩ := hmakes
        obtain ⟨named, _, rfl⟩ := Option.map_eq_some_iff.mp hadded
        exact hrequest id executable verdict port rfl
      | ruleDelete id =>
        obtain ⟨_, rfl⟩ := hmakes
        cases hadded
      | promptAnswer id verdict scope =>
        obtain ⟨answer, lifetime, prompt, _, _, hget, _, rfl⟩ := hmakes
        obtain rfl := Option.some.inj hadded
        exact PromptQueue.each_expire hprompts _ id prompt hget

theorem PolicyStore.each_handle {toml : Toml} {inputs : PolicyInputs} {store : PolicyStore}
    {property : PromptKey → Instant → Prop} (hprompts : store.prompts.value.Each property)
    (request : PolicyRequest) :
    (store.handle toml inputs request).1.prompts.value.Each property := by
  have hmutate : ∀ change, (store.mutate toml inputs change).1.prompts = store.prompts := by
    intro change
    unfold mutate
    split_ifs
    · rfl
    · exact prompts_changeRules _ _ _ _
  cases request with
  | ruleAdd id executable verdict port =>
    rw [handle, hmutate]
    exact hprompts
  | ruleDelete id =>
    rw [handle, hmutate]
    exact hprompts
  | promptAnswer id verdict scope =>
    rw [handle]
    rcases prompts_promptAnswer toml inputs id verdict scope store with hsame |
      ⟨answer, lifetime, hanswer⟩
    · rwa [hsame]
    · rw [hanswer, Mutex.value_store]
      exact PromptQueue.each_answer hprompts _ _ _ _ _

namespace ControlState

variable {toml : Toml} {context : RequestContext} {state : ControlState}

/-- A request that changes rules keeps to texts without a newline. Assumes: the state has none, and
neither has the executable of the request. -/
theorem singleLined_changePolicy (hshared : state.shared.SingleLined) {request : PolicyRequest}
    (hrequest : ∀ id executable verdict port, request = .ruleAdd id executable verdict port →
      Unbroken executable) :
    (state.changePolicy toml context request).1.shared.SingleLined := by
  obtain ⟨hpolicy, hstats⟩ := hshared
  have hrules := @PolicyStore.unbroken_handle toml context.policyInputs state.policyStore request
    hpolicy.rules hpolicy.prompts hrequest
  have hprompts := @PolicyStore.each_handle toml context.policyInputs state.policyStore _
    hpolicy.prompts request
  exact ⟨⟨hrules, hpolicy.cache, hprompts, hpolicy.dns, hpolicy.recent⟩, hstats⟩

theorem singleLined_promptList (hshared : state.shared.SingleLined) :
    (state.promptList context).1.shared.SingleLined := by
  obtain ⟨hpolicy, hstats⟩ := hshared
  unfold promptList PolicyStore.promptList
  cases hlock : state.policyStore.prompts.lock with
  | none => exact ⟨hpolicy, hstats⟩
  | some prompts =>
    have hvalue : state.shared.prompts.value = prompts := Mutex.value_of_lock hlock
    have heach : prompts.Each fun key _ ↦ Unbroken key.executable := hvalue ▸ hpolicy.prompts
    exact ⟨⟨hpolicy.rules, hpolicy.cache, PromptQueue.each_expire heach _, hpolicy.dns,
      hpolicy.recent⟩, hstats⟩

theorem singleLined_dnsList (hshared : state.shared.SingleLined) :
    (state.dnsList context).1.shared.SingleLined := by
  obtain ⟨hpolicy, hstats⟩ := hshared
  unfold dnsList
  split
  · exact ⟨hpolicy, hstats⟩
  · next dns hlock =>
    have hdns : dns.SingleLined := Mutex.value_of_lock hlock ▸ hpolicy.dns
    exact ⟨⟨hpolicy.rules, hpolicy.cache, hpolicy.prompts, hdns.expire _, hpolicy.recent⟩, hstats⟩

theorem singleLined_noteDns (hshared : state.shared.SingleLined) {hostname : String}
    (hhostname : Unbroken hostname) (ipv4 : String) (ttlSecs : Option UInt64) :
    (state.noteDns context hostname ipv4 ttlSecs).1.shared.SingleLined := by
  obtain ⟨hpolicy, hstats⟩ := hshared
  have hdns : (dnsNote context.peerMayMutate context.expireNow context.stampNow hostname ipv4
      ttlSecs state.shared.dns).1.value.SingleLined := by
    unfold dnsNote
    split_ifs
    · exact hpolicy.dns
    · exact hpolicy.dns
    · split
      · exact hpolicy.dns
      · split
        · exact hpolicy.dns
        · next cache hlock =>
          have hcache : cache.SingleLined := Mutex.value_of_lock hlock ▸ hpolicy.dns
          dsimp only
          split
          · next after hobserve => exact hcache.observe hhostname hobserve
          · exact hpolicy.dns
  exact ⟨⟨hpolicy.rules, hpolicy.cache, hpolicy.prompts, hdns, hpolicy.recent⟩, hstats⟩

/-- A request keeps to texts without a newline. Assumes: the state and the texts of the request have
none. -/
theorem singleLined_dispatch (hshared : state.shared.SingleLined) {request : Request}
    (htexts : ∀ text ∈ request.texts, Unbroken text) :
    (dispatch toml context state request).1.shared.SingleLined := by
  cases request with
  | ruleDelete id =>
    refine @singleLined_changePolicy toml context state hshared (.ruleDelete id) ?_
    rintro _ _ _ _ ⟨⟩
  | ruleAdd id executable verdict port =>
    refine @singleLined_changePolicy toml context state hshared (.ruleAdd id executable verdict port) ?_
    rintro _ _ _ _ ⟨⟩
    exact htexts executable List.mem_cons_self
  | promptAnswer id verdict scope =>
    refine @singleLined_changePolicy toml context state hshared (.promptAnswer id verdict scope) ?_
    rintro _ _ _ _ ⟨⟩
  | promptList => exact singleLined_promptList hshared
  | dnsList => exact singleLined_dnsList hshared
  | dnsNote hostname ipv4 ttlSecs =>
    exact singleLined_noteDns hshared (htexts hostname List.mem_cons_self) ipv4 ttlSecs
  | networkInstall | networkRemove =>
    obtain ⟨enforcement, heq⟩ := exists_mutateMode context state _ _
    rw [dispatch, answered, networkMutate, heq]
    exact hshared
  | pause | resume =>
    obtain ⟨enforcement, heq⟩ := exists_mutateMode context state _ _
    rw [dispatch, answered, enforcementMutate, heq]
    exact hshared
  | trafficBlock | trafficUnblock =>
    obtain ⟨enforcement, heq⟩ := exists_trafficMutate context state _ _ _
    rw [dispatch, answered, heq]
    exact hshared
  | _ => exact hshared

end ControlState

end InterFire
