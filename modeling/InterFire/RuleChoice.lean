import InterFire.Library.Greatest
import InterFire.RulesStore

/-!
# Which rule decides

`RuleSet.verdictFor` scans the rules in their order and keeps the last one of greatest precedence.
In a set with distinct ids no two rules have the same precedence, so the rule it keeps is the
matching rule of strictly greatest precedence (`RuleSet.Wins`) and the order does not matter.
`verdictFor_of_wins` and `verdictFor_of_unmatched` are the two cases of the choice,
`verdictFor_congr` says that only the matching rules count, and `rule_choice_of_reachable` collects
what follows for every set that insertions, removals and loads build (`RuleSet.Reachable`).
-/

set_option autoImplicit false
set_option relaxedAutoImplicit false

namespace InterFire

open Greatest

/-- The scan of the source is the library's. -/
theorem maxByKey_cons {α β : Type} [LinearOrder β] (key : α → β) (first : α) (rest : List α) :
    maxByKey key (first :: rest) = some (rest.foldl (keepGreater key) first) := rfl

theorem Rule.precedence_lt_iff (first second : Rule) :
    first.precedence < second.precedence ↔
      first.constrained < second.constrained ∨
        (first.constrained = second.constrained ∧ first.id < second.id) := by
  rw [Rule.precedence, Rule.precedence, Prod.Lex.toLex_lt_toLex, UInt64.lt_iff_toNat_lt]

/-- Rules of equal precedence have the same id. Assumes: the precedences are equal. -/
theorem Rule.id_eq_of_precedence_eq {first second : Rule}
    (hprecedence : first.precedence = second.precedence) : first.id = second.id := by
  have hpair := toLex.injective hprecedence
  exact UInt64.toNat_inj.mp (Prod.mk.inj hpair).2

namespace RuleSet

/-- The rule sets that the operations of the crate build. -/
inductive Reachable (toml : Toml) : RuleSet → Prop
  | default : Reachable toml RuleSet.default
  | insert {set after : RuleSet} {rule : Rule} (hreachable : Reachable toml set)
      (hinsert : set.insert rule = .ok after) : Reachable toml after
  | remove {set : RuleSet} (id : UInt64) (hreachable : Reachable toml set) :
      Reachable toml (set.remove id).1
  | load {file : Option (Except String String)} {set : RuleSet}
      (hload : RulesStore.load toml file = .ok set) : Reachable toml set

/-- The rules of a set that match a connection. -/
def matching (set : RuleSet) (connection : Connection) : Set Rule :=
  {rule | rule ∈ set.rules ∧ rule.matches connection = true}

/-- The rule matches, and every other rule that matches has a smaller precedence. -/
def Wins (set : RuleSet) (connection : Connection) (rule : Rule) : Prop :=
  StrictlyGreatest Rule.precedence (set.matching connection) rule

/-- A rule that has no say: it does not match, or the winner has a greater precedence. -/
def Irrelevant (set : RuleSet) (connection : Connection) (rule : Rule) : Prop :=
  rule.matches connection = false ∨
    ∃ winner, set.Wins connection winner ∧ rule.precedence < winner.precedence

/-- Every reachable set has distinct ids and absolute executables. Assumes: it is reachable. -/
theorem valid_of_reachable {toml : Toml} {set : RuleSet} (hreachable : Reachable toml set) :
    set.Valid := by
  induction hreachable with
  | default => exact valid_default
  | insert _ hinsert ih => exact valid_insert ih hinsert
  | remove id _ ih => exact valid_remove ih id
  | load hload => exact RulesStore.valid_of_load hload

/-- No two rules of a valid set have the same precedence. Assumes: the set is valid. -/
theorem injOn_precedence {set : RuleSet} (hvalid : set.Valid) (connection : Connection) :
    Set.InjOn Rule.precedence (set.matching connection) := by
  intro first hfirst second hsecond hprecedence
  exact List.inj_on_of_nodup_map hvalid.nodup hfirst.1 hsecond.1
    (Rule.id_eq_of_precedence_eq hprecedence)

/-- The winner decides. Assumes: there is one. -/
theorem verdictFor_of_wins {set : RuleSet} {connection : Connection} {rule : Rule}
    (hwins : set.Wins connection rule) : set.verdictFor connection = rule.verdict := by
  have hmembers : ∀ candidate, candidate ∈ set.rules.filter (·.matches connection) ↔
      candidate ∈ set.matching connection := fun candidate ↦ List.mem_filter
  unfold verdictFor
  cases hfilter : set.rules.filter (·.matches connection) with
  | nil =>
    have hmem := (hmembers rule).mpr hwins.1
    rw [hfilter] at hmem
    cases hmem
  | cons first rest =>
    have hgreatest : StrictlyGreatest Rule.precedence {member | member ∈ first :: rest} rule := by
      have hsame : {member | member ∈ first :: rest} = set.matching connection := by
        ext candidate
        rw [← hfilter]
        exact hmembers candidate
      rw [hsame]
      exact hwins
    rw [maxByKey_cons, strictlyGreatest_scan hgreatest]

/-- Without a matching rule the verdict is a prompt. Assumes: none matches. -/
theorem verdictFor_of_unmatched {set : RuleSet} {connection : Connection}
    (hnone : set.matching connection = ∅) : set.verdictFor connection = .prompt := by
  have hfilter : set.rules.filter (·.matches connection) = [] := by
    rw [List.filter_eq_nil_iff]
    intro rule hrule hmatches
    have hmem : rule ∈ set.matching connection := ⟨hrule, hmatches⟩
    rw [hnone] at hmem
    exact hmem
  unfold verdictFor
  rw [hfilter]
  rfl

/-- Some rule wins unless none matches. Assumes: the set is valid. -/
theorem exists_wins {set : RuleSet} (hvalid : set.Valid) (connection : Connection) :
    (∃ rule, set.Wins connection rule) ∨ set.matching connection = ∅ := by
  cases hfilter : set.rules.filter (·.matches connection) with
  | nil =>
    refine .inr (Set.eq_empty_iff_forall_notMem.mpr fun rule hrule ↦ ?_)
    have hmem : rule ∈ set.rules.filter (·.matches connection) := List.mem_filter.mpr hrule
    rw [hfilter] at hmem
    cases hmem
  | cons first rest =>
    obtain ⟨hmem, hmax⟩ := scan_spec Rule.precedence rest first
    rw [← hfilter] at hmem hmax
    refine .inl ⟨rest.foldl (keepGreater Rule.precedence) first, ?_⟩
    refine strictlyGreatest_of_max (injOn_precedence hvalid connection)
      (List.mem_filter.mp hmem) fun other hother ↦ ?_
    exact hmax other (List.mem_filter.mpr hother)

/-- Only the matching rules count. Assumes: the sets have the same ones, and the first is valid. -/
theorem verdictFor_congr {set other : RuleSet} {connection : Connection} (hvalid : set.Valid)
    (hsame : other.matching connection = set.matching connection) :
    other.verdictFor connection = set.verdictFor connection := by
  rcases exists_wins hvalid connection with ⟨rule, hwins⟩ | hnone
  · have hother : other.Wins connection rule := by
      unfold Wins
      rw [hsame]
      exact hwins
    rw [verdictFor_of_wins hwins, verdictFor_of_wins hother]
  · rw [verdictFor_of_unmatched hnone, verdictFor_of_unmatched (hsame.trans hnone)]

/-- The order of the rules does not matter. Assumes: the set is valid and the other has the same
rules. -/
theorem verdictFor_of_perm {set : RuleSet} (hvalid : set.Valid) {rules : List Rule}
    (hperm : rules.Perm set.rules) (connection : Connection) :
    (⟨rules⟩ : RuleSet).verdictFor connection = set.verdictFor connection := by
  refine verdictFor_congr hvalid ?_
  ext rule
  exact and_congr_left fun _ ↦ hperm.mem_iff

/-- The rules can be inserted in any order. Assumes: the set is valid and the list has its rules. -/
theorem insertAll_of_perm {set : RuleSet} (hvalid : set.Valid) {rules : List Rule}
    (hperm : rules.Perm set.rules) : RuleSet.default.insertAll rules = .ok ⟨rules⟩ := by
  refine @insertAll_of_valid RuleSet.default rules ⟨?_, fun rule hrule ↦ ?_⟩
  · exact ((hperm.map Rule.id).nodup_iff).mpr hvalid.nodup
  · exact hvalid.absolute rule (hperm.mem_iff.mp hrule)

/-- The matching rules after an insertion. -/
theorem matching_append (set : RuleSet) (rule : Rule) (connection : Connection) :
    (⟨set.rules ++ [rule]⟩ : RuleSet).matching connection =
      if rule.matches connection then Insert.insert rule (set.matching connection)
      else set.matching connection := by
  ext candidate
  split_ifs with hmatches
  · constructor
    · rintro ⟨hmem, hcandidate⟩
      rcases List.mem_append.mp hmem with hbefore | hnew
      · exact .inr ⟨hbefore, hcandidate⟩
      · exact .inl (List.mem_singleton.mp hnew)
    · rintro (rfl | ⟨hmem, hcandidate⟩)
      · exact ⟨List.mem_append_right _ List.mem_cons_self, hmatches⟩
      · exact ⟨List.mem_append_left _ hmem, hcandidate⟩
  · constructor
    · rintro ⟨hmem, hcandidate⟩
      rcases List.mem_append.mp hmem with hbefore | hnew
      · exact ⟨hbefore, hcandidate⟩
      · rw [List.mem_singleton.mp hnew] at hcandidate
        exact absurd hcandidate hmatches
    · rintro ⟨hmem, hcandidate⟩
      exact ⟨List.mem_append_left _ hmem, hcandidate⟩

/-- Adding a rule that has no say changes no verdict. Assumes: the set is valid, the rule is
inserted and has no say. -/
theorem verdictFor_insert {set after : RuleSet} {rule : Rule} {connection : Connection}
    (hvalid : set.Valid) (hinsert : set.insert rule = .ok after)
    (hirrelevant : set.Irrelevant connection rule) :
    after.verdictFor connection = set.verdictFor connection := by
  obtain ⟨rfl, _, _⟩ := of_insert_ok hinsert
  have hmatching := matching_append set rule connection
  rcases hirrelevant with hunmatched | ⟨winner, hwins, hlt⟩
  · rw [hunmatched] at hmatching
    exact verdictFor_congr hvalid hmatching
  · have hafter : (⟨set.rules ++ [rule]⟩ : RuleSet).Wins connection winner := by
      unfold Wins
      rw [hmatching]
      split_ifs
      · exact StrictlyGreatest.insert hwins hlt
      · exact hwins
    rw [verdictFor_of_wins hwins, verdictFor_of_wins hafter]

/-- Removing a rule that has no say changes no verdict. Assumes: the set is valid, and the rule is
in it and has no say. -/
theorem verdictFor_remove {set : RuleSet} {rule : Rule} {connection : Connection}
    (hvalid : set.Valid) (hmem : rule ∈ set.rules)
    (hirrelevant : set.Irrelevant connection rule) :
    (set.remove rule.id).1.verdictFor connection = set.verdictFor connection := by
  have hkept : ∀ candidate, candidate ∈ (set.remove rule.id).1.rules ↔
      candidate ∈ set.rules ∧ candidate.id ≠ rule.id := by
    intro candidate
    simp [remove]
  rcases hirrelevant with hunmatched | ⟨winner, hwins, hlt⟩
  · refine verdictFor_congr hvalid ?_
    ext candidate
    refine ⟨fun hcandidate ↦ ⟨((hkept candidate).mp hcandidate.1).1, hcandidate.2⟩, ?_⟩
    rintro ⟨hcandidate, hmatches⟩
    refine ⟨(hkept candidate).mpr ⟨hcandidate, fun hid ↦ ?_⟩, hmatches⟩
    -- The removed rule is the only one with its id, and it does not match.
    obtain rfl := List.inj_on_of_nodup_map hvalid.nodup hcandidate hmem hid
    rw [hunmatched] at hmatches
    cases hmatches
  · have hwinner : winner.id ≠ rule.id := by
      intro hid
      obtain rfl := List.inj_on_of_nodup_map hvalid.nodup hwins.1.1 hmem hid
      exact lt_irrefl _ hlt
    have hafter : (set.remove rule.id).1.Wins connection winner := by
      refine StrictlyGreatest.subset hwins (fun candidate hcandidate ↦ ?_) ?_
      · exact ⟨((hkept candidate).mp hcandidate.1).1, hcandidate.2⟩
      · exact ⟨(hkept winner).mpr ⟨hwins.1.1, hwinner⟩, hwins.1.2⟩
    rw [verdictFor_of_wins hwins, verdictFor_of_wins hafter]

/-- Rule choice in every reachable set: the ids are distinct and the executables absolute; the
unique matching rule that is greatest by number of constraints and id decides, and without one the
verdict is a prompt; permutations, insertion orders, rules without a say, and a save followed by a
load change no verdict. Assumes: the library reads back what it prints, and the set is reachable. -/
theorem rule_choice_of_reachable {toml : Toml} (hreads : toml.ReadsBack) {set : RuleSet}
    (hreachable : Reachable toml set) :
    (set.rules.map Rule.id).Nodup ∧
    (∀ rule ∈ set.rules, isAbsolute rule.executable = true) ∧
    ∀ connection,
      ((∃ winner, set.verdictFor connection = winner.verdict ∧
          ∀ rule, set.Wins connection rule ↔ rule = winner) ∨
        ((∀ rule ∈ set.rules, rule.matches connection = false) ∧
          set.verdictFor connection = .prompt)) ∧
      (∀ rules : List Rule, rules.Perm set.rules →
        RuleSet.default.insertAll rules = .ok ⟨rules⟩ ∧
          (⟨rules⟩ : RuleSet).verdictFor connection = set.verdictFor connection) ∧
      (∀ rule after, set.insert rule = .ok after → set.Irrelevant connection rule →
        after.verdictFor connection = set.verdictFor connection) ∧
      (∀ rule ∈ set.rules, set.Irrelevant connection rule →
        (set.remove rule.id).1.verdictFor connection = set.verdictFor connection) ∧
      ∀ outcome directory, (RulesStore.save toml outcome set directory).2 = .ok () →
        ∃ loaded, RulesStore.loadable toml (RulesStore.save toml outcome set directory).1 =
            .ok loaded ∧
          loaded.verdictFor connection = set.verdictFor connection := by
  have hvalid := valid_of_reachable hreachable
  refine ⟨hvalid.nodup, hvalid.absolute, fun connection ↦ ⟨?_, ?_, ?_, ?_, ?_⟩⟩
  · rcases exists_wins hvalid connection with ⟨winner, hwins⟩ | hnone
    · refine .inl ⟨winner, verdictFor_of_wins hwins, fun rule ↦ ⟨fun hrule ↦ ?_, ?_⟩⟩
      · exact StrictlyGreatest.unique hrule hwins
      · rintro rfl
        exact hwins
    · refine .inr ⟨fun rule hrule ↦ ?_, verdictFor_of_unmatched hnone⟩
      by_contra hmatches
      have hmem : rule ∈ set.matching connection := ⟨hrule, by simpa using hmatches⟩
      rw [hnone] at hmem
      exact hmem
  · intro rules hperm
    exact ⟨insertAll_of_perm hvalid hperm, verdictFor_of_perm hvalid hperm connection⟩
  · intro rule after hinsert hirrelevant
    exact verdictFor_insert hvalid hinsert hirrelevant
  · intro rule hmem hirrelevant
    exact verdictFor_remove hvalid hmem hirrelevant
  · intro outcome directory hsave
    exact ⟨set, RulesStore.loadable_of_save hreads hvalid hsave, rfl⟩

/-- The set with the one rule that allows curl port 443 is reachable, the rule decides curl's
connections, and the set is loaded again after a save. -/
theorem rule_choice_of_curlRule :
    (⟨[curlRule]⟩ : RuleSet).Wins curlConnection curlRule ∧
      (⟨[curlRule]⟩ : RuleSet).verdictFor curlConnection = .allow ∧
      ∃ loaded, RulesStore.loadable curlToml
          (RulesStore.save curlToml .done ⟨[curlRule]⟩ ⟨none, none⟩).1 = .ok loaded ∧
        loaded.verdictFor curlConnection = .allow := by
  have hinsert : RuleSet.default.insert curlRule = .ok ⟨[curlRule]⟩ := by decide
  have hverdict : (⟨[curlRule]⟩ : RuleSet).verdictFor curlConnection = .allow := by decide
  obtain ⟨_, _, hchoice⟩ := rule_choice_of_reachable curlToml_readsBack (.insert .default hinsert)
  obtain ⟨hwins, _, _, _, hsaved⟩ := hchoice curlConnection
  refine ⟨?_, hverdict, ?_⟩
  · rcases hwins with ⟨winner, _, hunique⟩ | ⟨hnone, _⟩
    · have hwinner := (hunique winner).mpr rfl
      obtain rfl : winner = curlRule := List.mem_singleton.mp hwinner.1.1
      exact hwinner
    · exact absurd (hnone curlRule List.mem_cons_self) (by decide)
  · rw [← hverdict]
    exact hsaved .done ⟨none, none⟩ (by decide)

end RuleSet

end InterFire
