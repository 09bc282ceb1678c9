import InterFire.RuleChoice
import InterFire.UnescapedLists

/-!
# The ids of new rules

An answered prompt gets a rule whose id the daemon computes (`persist_answered_rule` of
`crates/interfire-daemon/src/ipc.rs`, here `RuleSet.nextId`), and the desktop client proposes an id
for the form of a new rule (`next_rule_id` of `ui/src/rules.rs`). Both add one to the greatest id of
the list, the daemon with an addition that stops at the greatest number and the client with a plain
one. Ids are chosen by the operator from all numbers, so the greatest one may have no successor:
`ids_unused_iff` says that this is the only list for which either id fails.
-/

set_option autoImplicit false
set_option relaxedAutoImplicit false

namespace InterFire

/-- The greatest id. -/
def lastRuleId : UInt64 := UInt64.ofNat (2 ^ 64 - 1)

/-- The greater of two ids is one of them, and bounds both. -/
instance lawfulOrderMaxUInt64 : Std.LawfulOrderMax UInt64 :=
  .of_max_le_iff
    (fun first second bound ↦ by
      change (if first ≤ second then second else first) ≤ bound ↔ _
      split_ifs with hle
      · exact ⟨fun hsecond ↦ ⟨UInt64.le_trans hle hsecond, hsecond⟩, And.right⟩
      · have hother := (UInt64.le_total first second).resolve_left hle
        exact ⟨fun hfirst ↦ ⟨hfirst, UInt64.le_trans hother hfirst⟩, And.left⟩)
    (fun first second ↦ by
      change (if first ≤ second then second else first) = first ∨
        (if first ≤ second then second else first) = second
      split_ifs
      · exact .inr rfl
      · exact .inl rfl)

/-- Addition on unsigned 64-bit numbers. No result is an overflow. -/
def checkedAdd (value increment : UInt64) : Option UInt64 :=
  if value.toNat + increment.toNat < 2 ^ 64 then some (value + increment) else none

/-- The id that the desktop client proposes for a new rule. No result is an overflow of the
addition. -/
def nextRuleId (rules : List RuleRow) : Option UInt64 :=
  match (rules.map RuleRow.id).max? with
  | none => some 1
  | some id => checkedAdd id 1

namespace RuleSet

variable (set : RuleSet)

/-- No rule of the set has the id. -/
def Unused (id : UInt64) : Prop := ∀ rule ∈ set.rules, rule.id ≠ id

/-- The ids for new rules are computed without overflow, no rule has them, and the rule of an
answered prompt is not refused for its id. -/
structure IdsUnused : Prop where
  computed : set.nextId.toNat = ((set.rules.map Rule.id).max?.getD 0).toNat + 1
  answered : set.Unused set.nextId
  suggested : ∃ id, nextRuleId (set.rules.map RuleRow.ofRule) = some id ∧ set.Unused id
  accepted : ∀ answered, set.insert (set.answeredRule answered) ≠ .error (.duplicateId set.nextId)

variable {set}

theorem lt_of_ne_last {id : UInt64} (hne : id ≠ lastRuleId) : id.toNat + 1 < 2 ^ 64 := by
  have hlast : lastRuleId.toNat = 2 ^ 64 - 1 := rfl
  have hdiffer : id.toNat ≠ lastRuleId.toNat := fun heq ↦ hne (UInt64.toNat_inj.mp heq)
  have hbound := id.toNat_lt
  omega

/-- The greatest id of a list, or zero. -/
theorem le_max_ids {rule : Rule} (hrule : rule ∈ set.rules) :
    rule.id ≤ (set.rules.map Rule.id).max?.getD 0 := by
  cases hmax : (set.rules.map Rule.id).max? with
  | none =>
    rw [List.max?_eq_none_iff, List.map_eq_nil_iff] at hmax
    rw [hmax] at hrule
    cases hrule
  | some greatest => exact (List.max?_eq_some_iff.mp hmax).2 _ (List.mem_map_of_mem hrule)

/-- A number above the greatest id is unused. Assumes: it is above. -/
theorem unused_of_lt {id : UInt64} (hlt : ((set.rules.map Rule.id).max?.getD 0).toNat < id.toNat) :
    set.Unused id := by
  rintro rule hrule rfl
  have hle := UInt64.le_iff_toNat_le.mp (le_max_ids hrule)
  omega

/-- The client sees the ids of the rules. -/
theorem ids_rows (rules : List Rule) :
    (rules.map RuleRow.ofRule).map RuleRow.id = rules.map Rule.id := by
  rw [List.map_map]
  rfl

/-- The greatest id is in the set, unless the set is empty. -/
theorem max_ids_ne_last (hlast : set.Unused lastRuleId) :
    (set.rules.map Rule.id).max?.getD 0 ≠ lastRuleId := by
  cases hmax : (set.rules.map Rule.id).max? with
  | none => decide
  | some greatest =>
    obtain ⟨rule, hrule, rfl⟩ := List.mem_map.mp (List.max?_mem hmax)
    exact hlast rule hrule

/-- The greatest id is the last number. Assumes: a rule has it. -/
theorem max_ids_of_mem {rule : Rule} (hrule : rule ∈ set.rules) (hid : rule.id = lastRuleId) :
    (set.rules.map Rule.id).max? = some lastRuleId := by
  refine List.max?_eq_some_iff.mpr ⟨hid ▸ List.mem_map_of_mem hrule, fun other _ ↦ ?_⟩
  have hlast : lastRuleId.toNat = 2 ^ 64 - 1 := rfl
  have hbound := other.toNat_lt
  exact UInt64.le_iff_toNat_le.mpr (by omega)

/-- The proposed id is one more than the greatest one. Assumes: it has a successor. -/
theorem nextRuleId_rows (hlt : ((set.rules.map Rule.id).max?.getD 0).toNat + 1 < 2 ^ 64) :
    ∃ id, nextRuleId (set.rules.map RuleRow.ofRule) = some id ∧
      ((set.rules.map Rule.id).max?.getD 0).toNat < id.toNat := by
  rw [nextRuleId, ids_rows]
  cases hmax : (set.rules.map Rule.id).max? with
  | none => exact ⟨1, rfl, by decide⟩
  | some greatest =>
    rw [hmax, Option.getD_some] at hlt
    have hone : (1 : UInt64).toNat = 1 := rfl
    refine ⟨greatest + 1, ?_, ?_⟩
    · simp only [checkedAdd, hone, if_pos hlt]
    · rw [UInt64.toNat_add, hone, Nat.mod_eq_of_lt hlt, Option.getD_some]
      omega

/-- An insertion is refused for its id only when a rule has it. Assumes: no rule has it. -/
theorem insert_ne_duplicateId {rule : Rule} (hunused : set.Unused rule.id) :
    set.insert rule ≠ .error (.duplicateId rule.id) := by
  have hany : set.rules.any (·.id = rule.id) = false := by
    rw [List.any_eq_false]
    intro existing hexisting
    simpa using hunused existing hexisting
  unfold insert
  rw [hany]
  split_ifs with habsolute hfalse
  · simp
  · cases hfalse
  · simp

/-- The ids for new rules are unused exactly when no rule has the greatest number for its id. -/
theorem ids_unused_iff (set : RuleSet) : set.IdsUnused ↔ ∀ rule ∈ set.rules, rule.id ≠ lastRuleId := by
  constructor
  · rintro ⟨-, -, ⟨id, hid, -⟩, -⟩ rule hrule hlast
    have hoverflow : checkedAdd lastRuleId 1 = none := by decide
    rw [nextRuleId, ids_rows, max_ids_of_mem hrule hlast] at hid
    cases hoverflow.symm.trans hid
  · intro hlast
    have hlt := lt_of_ne_last (max_ids_ne_last hlast)
    have hexact : set.nextId.toNat = ((set.rules.map Rule.id).max?.getD 0).toNat + 1 :=
      toNat_saturatingAdd_one hlt
    have hunused : set.Unused set.nextId := unused_of_lt (by omega)
    obtain ⟨id, hid, habove⟩ := nextRuleId_rows hlt
    refine ⟨hexact, hunused, ⟨id, hid, unused_of_lt habove⟩, fun answered ↦ ?_⟩
    have hid : (set.answeredRule answered).id = set.nextId := rfl
    rw [← hid] at hunused ⊢
    exact insert_ne_duplicateId hunused

/-- A rule with the last id that the daemon accepts, after which the rule of an answered prompt is
refused for its id, and the client's addition overflows. -/
theorem last_id_blocks_answers :
    let rule := Rule.forPort lastRuleId "/usr/bin/curl" 443 .deny .permanent
    let answered : Answered := ⟨1, ⟨"/usr/bin/wget", 0, 80⟩, .allow, .permanent, false⟩
    RuleSet.default.insert rule = .ok ⟨[rule]⟩ ∧ ¬ IdsUnused ⟨[rule]⟩ ∧
      insert ⟨[rule]⟩ (answeredRule ⟨[rule]⟩ answered) = .error (.duplicateId lastRuleId) ∧
      nextRuleId [RuleRow.ofRule rule] = none := by
  intro rule answered
  have hrefused : insert ⟨[rule]⟩ (answeredRule ⟨[rule]⟩ answered) =
      .error (.duplicateId lastRuleId) := by decide
  refine ⟨by decide, fun hunused ↦ ?_, hrefused, by decide⟩
  exact hunused.accepted answered hrefused

end RuleSet

end InterFire
