import InterFire.Enforcement

/-!
# What the installed table does

`intended` is the purpose of the table, in its own words: which packets are dropped, queued or
accepted for a machine preference, a list of user entries, a mode and a bind state.
`reapplyTable_meaning` says that the table `reapply_table` installs treats every packet that way.
`effective_label_truthful_iff` compares the table with the label of the status response, which names
one scope only.
-/

set_option autoImplicit false
set_option relaxedAutoImplicit false

namespace InterFire

open Nftables Nft

/-! ### The purpose of the table -/

/-- A packet that opens a TCP connection over a real interface. -/
def OpensTcp (packet : Packet) : Prop :=
  packet.interface ≠ "lo" ∧ packet.transport = .tcp ∧ packet.ctState = .new

instance (packet : Packet) : Decidable (OpensTcp packet) := inferInstanceAs (Decidable (_ ∧ _ ∧ _))

/-- A preference wants to drop what opens connections at a hook. -/
def wantsHook (hook : Hook) (preference : TrafficPreference) : Bool :=
  match hook with
  | .output => preference.wantsOut
  | .input => preference.wantsIn

/-- A preference that wants a direction is blocked. Assumes: it wants one. -/
theorem isBlocked_of_wantsHook {hook : Hook} {preference : TrafficPreference}
    (hwants : wantsHook hook preference = true) : preference.isBlocked = true := by
  rw [TrafficPreference.isBlocked_eq, Bool.or_eq_true]
  cases hook with
  | output => exact .inl hwants
  | input => exact .inr hwants

/-- The machine or an entry of the packet's user wants to drop the packet. -/
def Blocked (machine : TrafficPreference) (users : List (UInt32 × TrafficPreference))
    (packet : Packet) : Prop :=
  wantsHook packet.hook machine = true ∨
    ∃ user ∈ users, packet.socketUid = some user.1 ∧ wantsHook packet.hook user.2 = true

instance (machine : TrafficPreference) (users : List (UInt32 × TrafficPreference))
    (packet : Packet) : Decidable (Blocked machine users packet) :=
  inferInstanceAs (Decidable (_ ∨ _))

/-- What the table is for. -/
def intended (machine : TrafficPreference) (users : List (UInt32 × TrafficPreference))
    (mode : EnforcementMode) (bindState : BindState) (packet : Packet) : Disposition :=
  if ¬ OpensTcp packet then .accept
  else if Blocked machine users packet then .drop
  else if packet.hook = .output ∧ mode = .active ∧ bindState = .nfqueue then .queue 4242
  else .accept

/-! ### The rules of a chain -/

/-- The rules that a composed table has at a hook. -/
def hookRules (compose : TrafficCompose) : Hook → List Nftables.Rule
  | .output => outputRules compose
  | .input => inputRules compose

/-- The rule that lets the loopback interface pass at a hook. -/
def loopbackRule : Hook → Nftables.Rule
  | .output => loopbackOutRule
  | .input => loopbackInRule

/-- The rules after the two that let packets pass. -/
def blockingRules (compose : TrafficCompose) (hook : Hook) : List Nftables.Rule :=
  if wantsHook hook compose.machine then [dropRule]
  else (wanting (wantsHook hook) compose.users).map userDropRule ++
    if hook = .output ∧ compose.rulesActive = true ∧ compose.queueBound = true then [queueRule]
    else []

theorem hookRules_eq (compose : TrafficCompose) (hook : Hook) :
    hookRules compose hook =
      [loopbackRule hook, establishedRule] ++ blockingRules compose hook := by
  cases hook with
  | output =>
    simp only [hookRules, outputRules, loopbackRule, blockingRules, wantsHook, true_and,
      Bool.and_eq_true]
    rfl
  | input =>
    simp only [hookRules, inputRules, loopbackRule, blockingRules, wantsHook, reduceCtorEq,
      false_and, if_false, List.append_nil]
    rfl

theorem applies_loopbackRule (packet : Packet) :
    (loopbackRule packet.hook).applies packet = decide (packet.interface = "lo") := by
  cases hhook : packet.hook <;>
    simp [loopbackRule, loopbackOutRule, loopbackInRule, Nftables.Rule.applies, Match.holds, hhook]

/-- A user's rule applies to what the user opens. -/
theorem applies_userDropRule (packet : Packet) (uid : UInt32) :
    (userDropRule uid).applies packet = true ↔
      packet.socketUid = some uid ∧ packet.transport = .tcp ∧ packet.ctState = .new := by
  simp [userDropRule, Nftables.Rule.applies, Match.holds]

theorem applies_dropRule (packet : Packet) :
    dropRule.applies packet = true ↔ packet.transport = .tcp ∧ packet.ctState = .new := by
  simp [dropRule, Nftables.Rule.applies, Match.holds]

theorem applies_queueRule (packet : Packet) :
    queueRule.applies packet = true ↔ packet.transport = .tcp ∧ packet.ctState = .new := by
  simp [queueRule, Nftables.Rule.applies, Match.holds]

/-- Every blocking rule asks for a new TCP packet. Assumes: the rule is one and applies. -/
theorem new_of_blockingRules {compose : TrafficCompose} {hook : Hook} {rule : Nftables.Rule}
    {packet : Packet} (hmem : rule ∈ blockingRules compose hook)
    (happlies : rule.applies packet = true) :
    packet.transport = .tcp ∧ packet.ctState = .new := by
  unfold blockingRules at hmem
  split_ifs at hmem with hmachine hqueue
  · rw [List.mem_singleton.mp hmem] at happlies
    exact (applies_dropRule packet).mp happlies
  · rcases List.mem_append.mp hmem with huser | hqueued
    · obtain ⟨uid, _, rfl⟩ := List.mem_map.mp huser
      exact ((applies_userDropRule packet uid).mp happlies).2
    · rw [List.mem_singleton.mp hqueued] at happlies
      exact (applies_queueRule packet).mp happlies
  · obtain ⟨uid, _, rfl⟩ := List.mem_map.mp (by simpa using hmem)
    exact ((applies_userDropRule packet uid).mp happlies).2

/-- The users that want a direction have a rule for the packet exactly when an entry of its user
wants it. Assumes: the packet opens a connection. -/
theorem any_wanting_iff {wants : TrafficPreference → Bool}
    {users : List (UInt32 × TrafficPreference)} {packet : Packet} (hopens : OpensTcp packet) :
    ((wanting wants users).any fun uid ↦ (userDropRule uid).applies packet) = true ↔
      ∃ user ∈ users, packet.socketUid = some user.1 ∧ wants user.2 = true := by
  rw [List.any_eq_true]
  constructor
  · rintro ⟨uid, hmem, happlies⟩
    simp only [wanting, List.mem_map, List.mem_filter] at hmem
    obtain ⟨user, ⟨huser, hwants⟩, rfl⟩ := hmem
    exact ⟨user, huser, ((applies_userDropRule packet user.1).mp happlies).1, hwants⟩
  · rintro ⟨user, huser, huid, hwants⟩
    refine ⟨user.1, ?_, (applies_userDropRule packet user.1).mpr ⟨huid, hopens.2⟩⟩
    simp only [wanting, List.mem_map, List.mem_filter]
    exact ⟨user, ⟨huser, hwants⟩, rfl⟩

/-- The blocking rules drop what is blocked and queue the rest when they have a queue rule.
Assumes: the packet opens a connection. -/
theorem decideRules_blockingRules (compose : TrafficCompose) {packet : Packet}
    (hopens : OpensTcp packet) :
    decideRules .accept (blockingRules compose packet.hook) packet =
      if Blocked compose.machine compose.users packet then .drop
      else if packet.hook = .output ∧ compose.rulesActive = true ∧ compose.queueBound = true
      then .queue nfqueueNum
      else .accept := by
  unfold blockingRules
  by_cases hmachine : wantsHook packet.hook compose.machine = true
  · have hdrop : dropRule.applies packet = true := (applies_dropRule packet).mpr hopens.2
    rw [if_pos hmachine, if_pos (.inl hmachine), decideRules_cons, if_pos hdrop, dropRule]
  · rw [if_neg hmachine, decideRules_append,
      decideRules_map_of_verdict _ .drop _ userDropRule fun _ ↦ rfl]
    have hblocked : Blocked compose.machine compose.users packet ↔
        ((wanting (wantsHook packet.hook) compose.users).any
          fun uid ↦ (userDropRule uid).applies packet) = true := by
      rw [any_wanting_iff hopens, Blocked, or_iff_right hmachine]
    have hqueue : queueRule.applies packet = true := (applies_queueRule packet).mpr hopens.2
    simp only [hblocked]
    split_ifs with huser hqueued
    · rfl
    · rw [decideRules_cons, if_pos hqueue, queueRule]
    · rfl

/-- What the composed rules of a hook do to a packet. -/
theorem decideRules_hookRules (compose : TrafficCompose) (packet : Packet) :
    decideRules .accept (hookRules compose packet.hook) packet =
      if ¬ OpensTcp packet then .accept
      else if Blocked compose.machine compose.users packet then .drop
      else if packet.hook = .output ∧ compose.rulesActive = true ∧ compose.queueBound = true
      then .queue nfqueueNum
      else .accept := by
  rw [hookRules_eq, List.cons_append, List.singleton_append, decideRules_cons, decideRules_cons,
    applies_loopbackRule]
  by_cases hloopback : packet.interface = "lo"
  · have hnot : ¬ OpensTcp packet := fun hopens ↦ hopens.1 hloopback
    rw [if_pos (by simpa using hloopback), if_pos hnot]
    cases packet.hook <;> rfl
  · rw [if_neg (by simpa using hloopback)]
    by_cases hopens : OpensTcp packet
    · have hestablished : establishedRule.applies packet = false := by
        simp [establishedRule, Nftables.Rule.applies, Match.holds, hopens.2.2]
      rw [if_neg (by simp [hestablished]), decideRules_blockingRules compose hopens,
        if_neg (not_not.mpr hopens)]
    · rw [if_pos hopens, decideRules_of_not_applies]
      · split_ifs <;> rfl
      · intro rule hmem
        by_contra happlies
        rw [Bool.not_eq_false] at happlies
        exact hopens ⟨hloopback, new_of_blockingRules hmem happlies⟩

/-! ### The installed table -/

/-- A hook whose chain is left out has nothing to block or queue. Assumes: it is left out. -/
theorem decideRules_of_not_needed {compose : TrafficCompose} {packet : Packet}
    (hneeded : (match packet.hook with
      | .output => needsOutput compose
      | .input => needsInput compose) = false) :
    decideRules .accept (hookRules compose packet.hook) packet = .accept := by
  rw [decideRules_hookRules]
  cases hhook : packet.hook with
  | output =>
    simp only [hhook, needsOutput, Bool.or_eq_false_iff, List.any_eq_false] at hneeded
    obtain ⟨⟨hmachine, husers⟩, hqueue⟩ := hneeded
    have hblocked : ¬ Blocked compose.machine compose.users packet := by
      rintro (hwants | ⟨user, hmem, _, hwants⟩)
      · simp [hhook, wantsHook, hmachine] at hwants
      · exact husers user hmem (by simpa [hhook, wantsHook] using hwants)
    have hnoQueue : ¬ (compose.rulesActive = true ∧ compose.queueBound = true) := by
      simpa using hqueue
    simp [hblocked, hnoQueue]
  | input =>
    simp only [hhook, needsInput, Bool.or_eq_false_iff, List.any_eq_false] at hneeded
    obtain ⟨hmachine, husers⟩ := hneeded
    have hblocked : ¬ Blocked compose.machine compose.users packet := by
      rintro (hwants | ⟨user, hmem, _, hwants⟩)
      · simp [hhook, wantsHook, hmachine] at hwants
      · exact husers user hmem (by simpa [hhook, wantsHook] using hwants)
    simp [hblocked]

/-- A composed table treats a packet by the rules of its hook. -/
theorem disposition_composedTable (compose : TrafficCompose) (packet : Packet) :
    disposition (some (composedTable compose)) packet =
      decideRules .accept (hookRules compose packet.hook) packet := by
  simp only [disposition, composedTable]
  cases hhook : packet.hook with
  | output =>
    have hlater : decideChains packet (if needsInput compose = true then
        [⟨"input", .input, .accept, inputRules compose⟩] else []) = .accept := by
      refine decideChains_of_hook_ne fun chain hmem ↦ ?_
      split_ifs at hmem
      · rw [List.mem_singleton.mp hmem, hhook]
        simp
      · simp at hmem
    by_cases hneeded : needsOutput compose = true
    · rw [if_pos hneeded, List.singleton_append, decideChains_cons_of_hook_eq hhook.symm hlater]
      rfl
    · rw [if_neg hneeded, List.nil_append, hlater, ← hhook]
      refine (decideRules_of_not_needed ?_).symm
      rw [hhook]
      simpa using hneeded
  | input =>
    have hinput : decideChains packet (if needsInput compose = true then
        [⟨"input", .input, .accept, inputRules compose⟩] else []) =
        decideRules .accept (hookRules compose .input) packet := by
      by_cases hneeded : needsInput compose = true
      · rw [if_pos hneeded, decideChains_cons_of_hook_eq hhook.symm rfl]
        rfl
      · rw [if_neg hneeded, ← hhook]
        refine (decideRules_of_not_needed ?_).symm
        rw [hhook]
        simpa using hneeded
    by_cases hneeded : needsOutput compose = true
    · rw [if_pos hneeded, List.singleton_append, decideChains_cons_of_hook_ne (by simp [hhook]),
        hinput]
    · rw [if_neg hneeded, List.nil_append, hinput]

/-- A composed table that is installed over anything treats a packet by the rules of its hook; when
no chain is needed the table is removed, which is the same. -/
theorem disposition_installComposed (compose : TrafficCompose) (prior : Option Table)
    (packet : Packet) :
    disposition (installComposed .success compose prior).1 packet =
        decideRules .accept (hookRules compose packet.hook) packet ∧
      (installComposed .success compose prior).2 = .ok () := by
  unfold installComposed
  dsimp only
  split_ifs with hempty
  · rw [composeTrafficScript_eq_empty_iff] at hempty
    refine ⟨(decideRules_of_not_needed ?_).symm, rfl⟩
    cases packet.hook
    · exact hempty.1
    · exact hempty.2
  · have hparse := parseScript_composeTrafficScript hempty
    simp only [loadScript, NftOutcomes.success, remove, hparse, load]
    exact ⟨disposition_composedTable compose packet, trivial⟩

/-- The queue table is the composed table of open preferences with a bound queue, but for the rule
that lets established connections pass. -/
theorem disposition_install (prior : Option Table) (packet : Packet) :
    disposition (install .success prior).1 packet =
        (if ¬ OpensTcp packet then .accept
        else if packet.hook = .output then .queue nfqueueNum else .accept) ∧
      (install .success prior).2 = .ok () := by
  simp only [install, loadScript, NftOutcomes.success, remove, parseScript_ownedTableScript, load,
    and_true]
  simp only [disposition, ownedTable]
  by_cases hhook : packet.hook = .output
  · rw [decideChains_cons_of_hook_eq hhook.symm rfl, decideRules_cons, decideRules_cons]
    have hloopback : loopbackOutRule.applies packet = decide (packet.interface = "lo") := by
      have happlies := applies_loopbackRule packet
      rwa [hhook] at happlies
    by_cases hinterface : packet.interface = "lo"
    · have hnot : ¬ OpensTcp packet := fun hopens ↦ hopens.1 hinterface
      rw [hloopback, if_pos (by simpa using hinterface), if_pos hnot]
      rfl
    · rw [hloopback, if_neg (by simpa using hinterface)]
      by_cases hopens : OpensTcp packet
      · rw [if_pos ((applies_queueRule packet).mpr hopens.2), if_neg (not_not.mpr hopens),
          if_pos hhook]
        rfl
      · have hnot : ¬ queueRule.applies packet = true := fun happlies ↦
          hopens ⟨hinterface, (applies_queueRule packet).mp happlies⟩
        rw [if_neg hnot, if_pos hopens]
        rfl
  · rw [decideChains_cons_of_hook_ne (fun heq ↦ hhook heq.symm), if_neg hhook, ite_self]
    rfl

/-- Open preferences block no packet. Assumes: neither the machine nor an entry is blocked. -/
theorem not_blocked_of_open {machine : TrafficPreference}
    {users : List (UInt32 × TrafficPreference)} (hmachine : machine.isBlocked = false)
    (husers : (users.any fun user ↦ user.2.isBlocked) = false) (packet : Packet) :
    ¬ Blocked machine users packet := by
  rintro (hwants | ⟨user, hmem, _, hwants⟩)
  · have hblocked := isBlocked_of_wantsHook hwants
    rw [hmachine] at hblocked
    cases hblocked
  · exact List.any_eq_false.mp husers user hmem (isBlocked_of_wantsHook hwants)

/-- An absent table treats every packet as intended when nothing is blocked and nothing is queued.
Assumes: no packet is blocked, and the rules are paused or the queue is not bound. -/
theorem intended_eq_accept {machine : TrafficPreference}
    {users : List (UInt32 × TrafficPreference)} {mode : EnforcementMode} {bindState : BindState}
    {packet : Packet} (hblocked : ¬ Blocked machine users packet)
    (hqueue : ¬ (mode = .active ∧ bindState = .nfqueue)) :
    intended machine users mode bindState packet = .accept := by
  have hnoQueue : ¬ (packet.hook = .output ∧ mode = .active ∧ bindState = .nfqueue) :=
    fun hqueued ↦ hqueue hqueued.2
  unfold intended
  rw [if_neg hblocked, if_neg hnoQueue, ite_self]

/-- The action that `tableAction` decides on leaves the table that is meant. -/
theorem disposition_tableAction (machine : TrafficPreference)
    (users : List (UInt32 × TrafficPreference)) (mode : EnforcementMode) (bindState : BindState)
    (prior : Option Table) (packet : Packet) :
    disposition ((tableAction machine users mode (bindState = .nfqueue)).run .success prior).1
          packet = intended machine users mode bindState packet ∧
      ((tableAction machine users mode (bindState = .nfqueue)).run .success prior).2 = .ok () := by
  by_cases hopen : machine.isBlocked = false ∧ (users.any fun user ↦ user.2.isBlocked) = false
  · have hblocked := not_blocked_of_open hopen.1 hopen.2 packet
    rw [tableAction_of_open hopen.1 hopen.2]
    by_cases hqueue : mode = .active ∧ bindState = .nfqueue
    · have hinstalled := disposition_install prior packet
      simpa [hqueue, TableAction.run, intended, hblocked, nfqueueNum] using hinstalled
    · rw [if_neg (by simpa using hqueue)]
      exact ⟨(intended_eq_accept hblocked hqueue).symm, rfl⟩
  · rw [tableAction_of_blocked hopen]
    obtain ⟨htable, hresult⟩ := disposition_installComposed
      { machine, users, rulesActive := decide (mode = .active) && !machine.wantsOut,
        queueBound := decide (bindState = .nfqueue) } prior packet
    refine ⟨?_, hresult⟩
    simp only [TableAction.run]
    rw [htable, decideRules_hookRules, intended]
    by_cases hblocked : Blocked machine users packet
    · simp [hblocked]
    · -- Nothing goes out unblocked when the machine wants out, so its guard changes nothing.
      have hguard : packet.hook = .output → machine.wantsOut = false := by
        intro hhook
        by_contra hwants
        exact hblocked (.inl (by simpa [hhook, wantsHook] using hwants))
      simp only [hblocked, if_false, nfqueueNum]
      by_cases hhook : packet.hook = .output
      · simp [hhook, hguard hhook]
      · simp [hhook]

/-- What a state reapplies is what its own modes mean. -/
theorem disposition_reapplyTable (state : Enforcement) (packet : Packet) :
    disposition (state.reapplyTable .success).1.table packet =
        intended state.machineTraffic state.userBlocks state.rulesMode state.bindState packet ∧
      (state.reapplyTable .success).2 = .ok () :=
  disposition_tableAction state.machineTraffic state.userBlocks state.rulesMode state.bindState
    state.table packet

/-- The table that `reapply_table` installs treats every packet as meant: for every machine
preference, list of user entries, mode and bind state, over every earlier table, and in particular
for what a state reads. -/
theorem reapplyTable_meaning :
    (∀ (machine : TrafficPreference) (users : List (UInt32 × TrafficPreference))
      (mode : EnforcementMode) (bindState : BindState) (prior : Option Table) (packet : Packet),
      disposition ((tableAction machine users mode (bindState = .nfqueue)).run .success prior).1
          packet = intended machine users mode bindState packet ∧
        ((tableAction machine users mode (bindState = .nfqueue)).run .success prior).2 = .ok ()) ∧
    ∀ (state : Enforcement) (packet : Packet),
      disposition (state.reapplyTable .success).1.table packet =
          intended state.machineTraffic state.userBlocks state.rulesMode state.bindState packet ∧
        (state.reapplyTable .success).2 = .ok () :=
  ⟨disposition_tableAction, disposition_reapplyTable⟩

/-! ### The label of the status response -/

/-- The preferences of the users with the list of those that block, each user once. -/
structure UserBlocks where
  preference : UInt32 → TrafficPreference
  entries : List (UInt32 × TrafficPreference)
  mem_entries : ∀ uid value,
    (uid, value) ∈ entries ↔ preference uid = value ∧ value.isBlocked = true

/-- The directions in which a table drops what a user opens. -/
def dropDirections (table : Option Table) (uid : UInt32) : Set Hook :=
  {hook | ∀ packet, packet.hook = hook → packet.socketUid = some uid → OpensTcp packet →
    disposition table packet = .drop}

/-- The directions of a preference. -/
def preferenceDirections (preference : TrafficPreference) : Set Hook :=
  {hook | wantsHook hook preference = true}

/-- The directions that a label names: those of the word after its last colon. -/
def labelDirections (label : String) : Set Hook :=
  let word := (label.toList.reverse.takeWhile (· ≠ ':')).reverse
  match TrafficPreference.parse (String.ofList word) with
  | some preference => preferenceDirections preference
  | none => ∅

/-- The table that the composed script leaves, over no earlier table. -/
def composedFor (machine : TrafficPreference) (users : UserBlocks)
    (rulesActive queueBound : Bool) : Option Table :=
  (installComposed .success { machine, users := users.entries, rulesActive, queueBound } none).1

/-- The label of a user names the directions in which the composed table drops what the user
opens. -/
def LabelTruthful (machine : TrafficPreference) (users : UserBlocks) (rulesActive queueBound : Bool)
    (uid : UInt32) : Prop :=
  dropDirections (composedFor machine users rulesActive queueBound) uid =
    labelDirections (effective machine (users.preference uid) uid).label

/-- What precedes the last colon does not matter to the directions of a label. -/
theorem labelDirections_append_colon (scope : String) (preference : TrafficPreference) :
    labelDirections (scope ++ ":" ++ preference.asStr) = preferenceDirections preference := by
  have hword : ((scope ++ ":" ++ preference.asStr).toList.reverse.takeWhile (· ≠ ':')).reverse =
      preference.asStr.toList := by
    have hcolon : ":".toList = [':'] := rfl
    simp only [String.toList_append, List.reverse_append, hcolon, List.reverse_singleton,
      List.singleton_append]
    cases preference <;> simp [TrafficPreference.asStr]
  simp only [labelDirections, hword, String.ofList_toList]
  cases preference <;> rfl

/-- The directions of the label in force: the machine's when it blocks, else the user's. -/
theorem labelDirections_effective (machine user : TrafficPreference) (uid : UInt32) :
    labelDirections (effective machine user uid).label =
      preferenceDirections (if machine.isBlocked then machine else user) := by
  unfold effective
  split_ifs with hmachine huser
  · exact labelDirections_append_colon "machine" machine
  · exact labelDirections_append_colon ("user:" ++ toString uid.toNat) user
  · have hopen : user = .open := by simpa [TrafficPreference.isBlocked] using huser
    rw [hopen]
    rfl

/-- What is queued or accepted is not dropped. -/
theorem drop_iff_of_blocked {blocked queued : Prop} [Decidable blocked] [Decidable queued]
    {number : ℕ} :
    (if blocked then Disposition.drop else if queued then .queue number else .accept) = .drop ↔
      blocked := by
  split_ifs with hblocked hqueued
  · exact iff_of_true rfl hblocked
  · exact iff_of_false (by simp) hblocked
  · exact iff_of_false (by simp) hblocked

/-- A user's packet is blocked in the directions of the machine and in those of the user. Assumes:
the packet is the user's. -/
theorem blocked_iff_of_uid {machine : TrafficPreference} {users : UserBlocks} {packet : Packet}
    {uid : UInt32} (huid : packet.socketUid = some uid) :
    Blocked machine users.entries packet ↔
      packet.hook ∈ preferenceDirections machine ∪ preferenceDirections (users.preference uid) := by
  refine or_congr_right ⟨?_, fun hwants ↦ ?_⟩
  · rintro ⟨user, hmem, hsocket, hwants⟩
    obtain rfl : uid = user.1 := Option.some.inj (huid.symm.trans hsocket)
    rw [← ((users.mem_entries user.1 user.2).mp hmem).1] at hwants
    exact hwants
  · have hblocked : (users.preference uid).isBlocked = true := isBlocked_of_wantsHook hwants
    exact ⟨(uid, users.preference uid), (users.mem_entries _ _).mpr ⟨rfl, hblocked⟩, huid, hwants⟩

/-- A table that drops what is blocked drops in the directions of the machine and in those of the
user. Assumes: of the packets that open connections, the table drops the blocked ones. -/
theorem dropDirections_of_blocked {table : Option Table} {machine : TrafficPreference}
    {users : UserBlocks} (htable : ∀ packet, OpensTcp packet →
      (disposition table packet = .drop ↔ Blocked machine users.entries packet)) (uid : UInt32) :
    dropDirections table uid =
      preferenceDirections machine ∪ preferenceDirections (users.preference uid) := by
  ext hook
  constructor
  · intro hall
    have hopens : OpensTcp ⟨hook, "eth0", .tcp, .new, some uid⟩ := by
      simp [OpensTcp]
    exact (blocked_iff_of_uid rfl).mp ((htable _ hopens).mp (hall _ rfl rfl hopens))
  · rintro hwants packet rfl huid hopens
    exact (htable packet hopens).mpr ((blocked_iff_of_uid huid).mpr hwants)

theorem dropDirections_composedFor (machine : TrafficPreference) (users : UserBlocks)
    (rulesActive queueBound : Bool) (uid : UInt32) :
    dropDirections (composedFor machine users rulesActive queueBound) uid =
      preferenceDirections machine ∪ preferenceDirections (users.preference uid) := by
  refine dropDirections_of_blocked (fun packet hopens ↦ ?_) uid
  rw [composedFor, (disposition_installComposed _ none packet).1, decideRules_hookRules,
    if_neg (not_not.mpr hopens)]
  exact drop_iff_of_blocked

/-- The directions of the machine and of the user are those of the label exactly when the machine is
open or blocks every direction that the user blocks. -/
theorem directions_eq_label_iff (machine user : TrafficPreference) (uid : UInt32) :
    preferenceDirections machine ∪ preferenceDirections user =
        labelDirections (effective machine user uid).label ↔
      machine = .open ∨ ((user.wantsOut = true → machine.wantsOut = true) ∧
        (user.wantsIn = true → machine.wantsIn = true)) := by
  rw [labelDirections_effective]
  by_cases hopen : machine = .open
  · subst hopen
    have hnone : preferenceDirections .open = ∅ := by
      ext hook
      cases hook <;> simp [preferenceDirections, wantsHook, TrafficPreference.wantsOut,
        TrafficPreference.wantsIn]
    simp [TrafficPreference.isBlocked, hnone]
  · have hmachine : machine.isBlocked = true := by simpa [TrafficPreference.isBlocked] using hopen
    rw [if_pos hmachine, Set.union_eq_left, or_iff_right hopen]
    constructor
    · intro hsubset
      exact ⟨fun hwants ↦ hsubset (a := .output) hwants,
        fun hwants ↦ hsubset (a := .input) hwants⟩
    · rintro ⟨hout, hin⟩ hook hwants
      cases hook
      · exact hout hwants
      · exact hin hwants

/-- The label tells the truth exactly when the machine is open or blocks every direction that the
user blocks: a machine that blocks one direction hides a user that blocks the other. -/
theorem effective_label_truthful_iff (machine : TrafficPreference) (users : UserBlocks)
    (rulesActive queueBound : Bool) (uid : UInt32) :
    LabelTruthful machine users rulesActive queueBound uid ↔
      machine = .open ∨
        (((users.preference uid).wantsOut = true → machine.wantsOut = true) ∧
          ((users.preference uid).wantsIn = true → machine.wantsIn = true)) := by
  rw [LabelTruthful, dropDirections_composedFor]
  exact directions_eq_label_iff machine (users.preference uid) uid

/-- One user that blocks what it opens itself. -/
def outboundUser : UserBlocks where
  preference uid := if uid = 1000 then .out else .open
  entries := [(1000, .out)]
  mem_entries uid value := by
    by_cases huid : uid = 1000
    · simp only [huid, List.mem_singleton, Prod.mk.injEq, true_and, if_true]
      constructor
      · rintro rfl
        exact ⟨rfl, rfl⟩
      · rintro ⟨rfl, _⟩
        rfl
    · simp only [List.mem_singleton, Prod.mk.injEq, huid, false_and, if_false, false_iff, not_and]
      rintro rfl
      decide

/-- A machine that blocks what comes in labels the user's connections as blocked inwards only, while
the table drops what the user opens. -/
theorem label_hides_user_block :
    (effective .in (outboundUser.preference 1000) 1000).label = "machine:in" ∧
      Hook.output ∈ dropDirections (composedFor .in outboundUser false false) 1000 ∧
      ¬ LabelTruthful .in outboundUser false false 1000 := by
  refine ⟨by decide, ?_, ?_⟩
  · rw [dropDirections_composedFor]
    exact .inr rfl
  · rw [LabelTruthful, dropDirections_composedFor, labelDirections_effective]
    intro hequal
    have hmem : Hook.output ∈ preferenceDirections .in ∪
        preferenceDirections (outboundUser.preference 1000) := .inr rfl
    rw [hequal] at hmem
    have hwants : wantsHook .output .in = true := hmem
    exact absurd hwants (by decide)

end InterFire
