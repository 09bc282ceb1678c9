import Mathlib.Data.List.Nodup
import InterFire.Rules

/-!
# The rules document

The other half of `crates/interfire-rules`: `RulesStore` keeps a rule set in a TOML document. `load`
reads the document and inserts its rules one by one, so what it returns has distinct ids and
absolute executables (`RuleSet.Valid`, `valid_of_load`). `save` writes every rule of the set to a
temporary sibling and renames it over the document; a `SaveOutcome` says where the file system stops
it.

The TOML library is a parameter (`Toml`): a printer, which refuses numbers that TOML cannot hold,
and a reader. `Toml.ReadsBack` is what the round trip needs of it, and `loadable_of_save` is that
round trip.
-/

set_option autoImplicit false
set_option relaxedAutoImplicit false

namespace InterFire

structure RulesDocument where
  schemaVersion : UInt32
  rules : List Rule
  deriving DecidableEq, Repr

/-- The TOML library: `toml::to_string_pretty` and `toml::from_str` at rules documents. -/
structure Toml where
  toStringPretty : RulesDocument → Except String String
  fromStr : String → Except String RulesDocument

/-- What the library prints it reads back. -/
def Toml.ReadsBack (toml : Toml) : Prop :=
  ∀ document text, toml.toStringPretty document = .ok text → toml.fromStr text = .ok document

inductive PersistenceError
  | io (error : String)
  | parse (error : String)
  | serialize (error : String)
  | unsupportedSchema (version : UInt32)
  | invalidRule (error : RuleError)
  deriving DecidableEq, Repr

/-- The directory of the document: the document and the temporary sibling of this process. -/
structure RulesDirectory where
  document : Option String
  temporary : Option String
  deriving DecidableEq, Repr

/-- Where the file system stops the replacement of the document once the temporary file is there. A
failed write may leave any part of the data behind. -/
inductive ReplaceOutcome
  | writeFailed (error written : String)
  | renameFailed (error : String)
  | permissionsFailed (error : String)
  | done
  deriving DecidableEq, Repr

/-- Where the file system stops a save. -/
inductive SaveOutcome
  | noParent
  | createDirFailed (error : String)
  | createFailed (error : String)
  | created (replace : ReplaceOutcome)
  deriving DecidableEq, Repr

/-- Every step of the save goes through. -/
def SaveOutcome.done : SaveOutcome := .created .done

namespace RuleSet

/-- Distinct ids and absolute executables. -/
structure Valid (set : RuleSet) : Prop where
  nodup : (set.rules.map Rule.id).Nodup
  absolute : ∀ rule ∈ set.rules, isAbsolute rule.executable = true

/-- Insert rules one by one, up to the first that is refused. -/
def insertAll (set : RuleSet) : List Rule → Except RuleError RuleSet
  | [] => .ok set
  | rule :: rest =>
    match set.insert rule with
    | .ok after => insertAll after rest
    | .error error => .error error

end RuleSet

namespace RulesStore

def schemaVersion : UInt32 := 1

/-- Load the rules: no file is the empty set. The argument is the outcome of reading the file. -/
def load (toml : Toml) (file : Option (Except String String)) : Except PersistenceError RuleSet :=
  match file with
  | none => .ok RuleSet.default
  | some read => do
    let text ← read.mapError .io
    let document ← (toml.fromStr text).mapError .parse
    if document.schemaVersion = schemaVersion then
      (RuleSet.default.insertAll document.rules).mapError .invalidRule
    else .error (.unsupportedSchema document.schemaVersion)

/-- The document of a rule set: all of its rules, whatever their scope. -/
def documentOf (rules : RuleSet) : RulesDocument := { schemaVersion, rules := rules.rules }

/-- Write the temporary file, rename it over the document and set the mode of the document. -/
def replaceDocument (outcome : ReplaceOutcome) (data : String) (directory : RulesDirectory) :
    RulesDirectory × Except PersistenceError Unit :=
  match outcome with
  | .writeFailed error written =>
    ({ directory with temporary := some written }, .error (.io error))
  | .renameFailed error => ({ directory with temporary := some data }, .error (.io error))
  | .permissionsFailed error => (⟨some data, none⟩, .error (.io error))
  | .done => (⟨some data, none⟩, .ok ())

/-- Save a rule set. The temporary file is created exclusively, so one that an earlier save left
behind stops the save. -/
def save (toml : Toml) (outcome : SaveOutcome) (rules : RuleSet) (directory : RulesDirectory) :
    RulesDirectory × Except PersistenceError Unit :=
  match toml.toStringPretty (documentOf rules) with
  | .error error => (directory, .error (.serialize error))
  | .ok data =>
    match outcome with
    | .noParent => (directory, .error (.io "rules path has no parent"))
    | .createDirFailed error => (directory, .error (.io error))
    | .createFailed error => (directory, .error (.io error))
    | .created replace =>
      if directory.temporary.isSome then (directory, .error (.io "File exists"))
      else replaceDocument replace data directory

/-- What the next start would load. -/
def loadable (toml : Toml) (directory : RulesDirectory) : Except PersistenceError RuleSet :=
  load toml (directory.document.map .ok)

end RulesStore

/-! ### Valid rule sets -/

namespace RuleSet

theorem valid_default : default.Valid := ⟨List.nodup_nil, nofun⟩

/-- What an insertion does. Assumes: the rule is not refused. -/
theorem of_insert_ok {set after : RuleSet} {rule : Rule} (hinsert : set.insert rule = .ok after) :
    after = ⟨set.rules ++ [rule]⟩ ∧ isAbsolute rule.executable = true ∧
      ∀ existing ∈ set.rules, existing.id ≠ rule.id := by
  unfold insert at hinsert
  split_ifs at hinsert with hrelative hduplicate
  obtain rfl := Except.ok.inj hinsert
  refine ⟨rfl, ?_, ?_⟩
  · simp only [Bool.or_eq_true, Bool.not_eq_true', decide_eq_true_eq, not_or,
      Bool.not_eq_false] at hrelative
    exact hrelative.2
  · simpa using hduplicate

/-- A rule with an absolute executable and an unused id is inserted. Assumes: it is one. -/
theorem insert_of_unused {set : RuleSet} {rule : Rule}
    (habsolute : isAbsolute rule.executable = true)
    (hunused : ∀ existing ∈ set.rules, existing.id ≠ rule.id) :
    set.insert rule = .ok ⟨set.rules ++ [rule]⟩ := by
  have hne : rule.executable ≠ "" := by
    intro hempty
    rw [hempty] at habsolute
    exact absurd habsolute (by decide)
  have hany : ¬ (set.rules.any (·.id = rule.id)) = true := by simpa using hunused
  unfold insert
  rw [if_neg (by simp [hne, habsolute]), if_neg hany]

/-- An insertion keeps a set valid. Assumes: it was, and the rule is not refused. -/
theorem valid_insert {set after : RuleSet} {rule : Rule} (hvalid : set.Valid)
    (hinsert : set.insert rule = .ok after) : after.Valid := by
  obtain ⟨rfl, habsolute, hunused⟩ := of_insert_ok hinsert
  constructor
  · rw [List.map_append, List.map_singleton, List.nodup_append]
    refine ⟨hvalid.nodup, List.nodup_singleton _, fun id hid other hother ↦ ?_⟩
    obtain ⟨existing, hexisting, rfl⟩ := List.mem_map.mp hid
    rw [List.mem_singleton.mp hother]
    exact hunused existing hexisting
  · intro existing hexisting
    rcases List.mem_append.mp hexisting with hbefore | hnew
    · exact hvalid.absolute existing hbefore
    · rw [List.mem_singleton.mp hnew]
      exact habsolute

/-- A set with a part of the rules of a valid one is valid. Assumes: it is a sublist. -/
theorem Valid.sublist {set smaller : RuleSet} (hvalid : set.Valid)
    (hsublist : smaller.rules.Sublist set.rules) : smaller.Valid :=
  ⟨hvalid.nodup.sublist (hsublist.map Rule.id),
    fun rule hrule ↦ hvalid.absolute rule (hsublist.subset hrule)⟩

theorem valid_remove {set : RuleSet} (hvalid : set.Valid) (id : UInt64) :
    (set.remove id).1.Valid :=
  hvalid.sublist List.filter_sublist

/-- Inserting rules one by one appends them and keeps the set valid. Assumes: none is refused. -/
theorem of_insertAll_ok {set after : RuleSet} {rules : List Rule} (hvalid : set.Valid)
    (hinsert : set.insertAll rules = .ok after) :
    after = ⟨set.rules ++ rules⟩ ∧ after.Valid := by
  induction rules generalizing set with
  | nil =>
    obtain rfl := Except.ok.inj hinsert
    exact ⟨by rw [List.append_nil], hvalid⟩
  | cons rule rest ih =>
    unfold insertAll at hinsert
    split at hinsert
    · next middle hmiddle =>
      obtain ⟨rfl, _, _⟩ := of_insert_ok hmiddle
      obtain ⟨rfl, hafter⟩ := ih (valid_insert hvalid hmiddle) hinsert
      exact ⟨by simp, hafter⟩
    · cases hinsert

/-- The rules of a valid set are all inserted. Assumes: the set with the rules appended is valid. -/
theorem insertAll_of_valid {set : RuleSet} {rules : List Rule}
    (hvalid : (⟨set.rules ++ rules⟩ : RuleSet).Valid) :
    set.insertAll rules = .ok ⟨set.rules ++ rules⟩ := by
  induction rules generalizing set with
  | nil => rw [List.append_nil]; rfl
  | cons rule rest ih =>
    have hunused : ∀ existing ∈ set.rules, existing.id ≠ rule.id := by
      intro existing hexisting
      have hnodup := hvalid.nodup
      rw [List.map_append, List.nodup_append] at hnodup
      exact hnodup.2.2 _ (List.mem_map_of_mem hexisting) _ (by simp)
    have hinsert : set.insert rule = .ok ⟨set.rules ++ [rule]⟩ :=
      insert_of_unused (hvalid.absolute rule (by simp)) hunused
    have hrest := @ih ⟨set.rules ++ [rule]⟩ (by simpa using hvalid)
    simpa [insertAll, hinsert] using hrest

end RuleSet

/-! ### Loading and saving -/

namespace RulesStore

/-- What is loaded was inserted rule by rule from a document of the current schema. Assumes: the
load of a file succeeded. -/
theorem document_of_load {toml : Toml} {read : Except String String} {rules : RuleSet}
    (hload : load toml (some read) = .ok rules) :
    ∃ text document, read = .ok text ∧ toml.fromStr text = .ok document ∧
      document.schemaVersion = schemaVersion ∧
      RuleSet.default.insertAll document.rules = .ok rules := by
  cases read with
  | error error => cases hload
  | ok text =>
    simp only [load, Except.mapError, bind, Except.bind] at hload
    cases hparse : toml.fromStr text with
    | error error => simp [hparse] at hload
    | ok document =>
      simp only [hparse] at hload
      split_ifs at hload with hversion
      cases hinsert : RuleSet.default.insertAll document.rules with
      | error error => simp [hinsert] at hload
      | ok inserted =>
        simp only [hinsert, Except.ok.injEq] at hload
        exact ⟨text, document, rfl, hparse, hversion, by rw [← hload, hinsert]⟩

/-- What is loaded is valid. Assumes: the load succeeded. -/
theorem valid_of_load {toml : Toml} {file : Option (Except String String)} {rules : RuleSet}
    (hload : load toml file = .ok rules) : rules.Valid := by
  cases file with
  | none =>
    obtain rfl := Except.ok.inj hload
    exact RuleSet.valid_default
  | some read =>
    obtain ⟨_, _, _, _, _, hinsert⟩ := document_of_load hload
    exact (RuleSet.of_insertAll_ok RuleSet.valid_default hinsert).2

/-- The rules of a document of the current schema are loaded from its text. Assumes: the rules are
valid and the library reads the text as their document. -/
theorem load_of_document {toml : Toml} {text : String} {rules : RuleSet} (hvalid : rules.Valid)
    (hread : toml.fromStr text = .ok (documentOf rules)) :
    load toml (some (.ok text)) = .ok rules := by
  have hinsert : RuleSet.default.insertAll rules.rules = .ok rules :=
    @RuleSet.insertAll_of_valid RuleSet.default rules.rules
      (by simpa [RuleSet.default] using hvalid)
  simp [load, Except.mapError, hread, documentOf, bind, Except.bind, hinsert]

/-- A save leaves the document alone, and then it reports an error, or replaces it by the printed
rules. -/
theorem save_cases (toml : Toml) (outcome : SaveOutcome) (rules : RuleSet)
    (directory : RulesDirectory) :
    ((save toml outcome rules directory).1.document = directory.document ∧
      ∃ error, (save toml outcome rules directory).2 = .error error) ∨
    ∃ data, toml.toStringPretty (documentOf rules) = .ok data ∧
      (save toml outcome rules directory).1 = ⟨some data, none⟩ := by
  cases hprint : toml.toStringPretty (documentOf rules) with
  | error error => exact .inl (by simp [save, hprint])
  | ok data =>
    simp only [save, hprint]
    cases outcome with
    | created replace =>
      split_ifs
      · exact .inl ⟨rfl, _, rfl⟩
      · cases replace with
        | writeFailed error written => exact .inl ⟨rfl, _, rfl⟩
        | renameFailed error => exact .inl ⟨rfl, _, rfl⟩
        | permissionsFailed error => exact .inr ⟨data, rfl, rfl⟩
        | done => exact .inr ⟨data, rfl, rfl⟩
    | _ => exact .inl ⟨rfl, _, rfl⟩

/-- A save that succeeds replaces the document. Assumes: it succeeds. -/
theorem of_save_ok {toml : Toml} {outcome : SaveOutcome} {rules : RuleSet}
    {directory : RulesDirectory} (hsave : (save toml outcome rules directory).2 = .ok ()) :
    ∃ data, toml.toStringPretty (documentOf rules) = .ok data ∧
      (save toml outcome rules directory).1 = ⟨some data, none⟩ := by
  rcases save_cases toml outcome rules directory with ⟨_, error, herror⟩ | hreplaced
  · rw [hsave] at herror
    cases herror
  · exact hreplaced

/-- The save goes through: the library prints the rules, no temporary file is in the way, and no
step of the file system fails. -/
def Saves (toml : Toml) (outcome : SaveOutcome) (rules : RuleSet) (directory : RulesDirectory) :
    Prop :=
  (∃ data, toml.toStringPretty (documentOf rules) = .ok data) ∧ directory.temporary = none ∧
    outcome = .done

theorem save_ok_iff (toml : Toml) (outcome : SaveOutcome) (rules : RuleSet)
    (directory : RulesDirectory) :
    (save toml outcome rules directory).2 = .ok () ↔ Saves toml outcome rules directory := by
  unfold Saves save
  cases hprint : toml.toStringPretty (documentOf rules) with
  | error error => simp
  | ok data =>
    cases outcome with
    | created replace =>
      cases htemporary : directory.temporary with
      | none => cases replace <;> simp [replaceDocument, SaveOutcome.done]
      | some leftover => simp
    | _ => simp [SaveOutcome.done]

/-- What was saved is loaded again. Assumes: the library reads back what it prints, the rules are
valid, and the save succeeds. -/
theorem loadable_of_save {toml : Toml} (hreads : toml.ReadsBack) {outcome : SaveOutcome}
    {rules : RuleSet} (hvalid : rules.Valid) {directory : RulesDirectory}
    (hsave : (save toml outcome rules directory).2 = .ok ()) :
    loadable toml (save toml outcome rules directory).1 = .ok rules := by
  obtain ⟨data, hprint, hdirectory⟩ := of_save_ok hsave
  rw [loadable, hdirectory]
  exact load_of_document hvalid (hreads _ _ hprint)

end RulesStore

/-! ### A document -/

/-- A library that knows some documents with their texts. -/
def Toml.ofTable (table : List (RulesDocument × String)) : Toml where
  toStringPretty document :=
    match table.find? (·.1 = document) with
    | some entry => .ok entry.2
    | none => .error "unknown document"
  fromStr text :=
    match table.find? (·.2 = text) with
    | some entry => .ok entry.1
    | none => .error "unknown text"

/-- A table with distinct texts reads back what it prints. Assumes: they are distinct. -/
theorem Toml.readsBack_ofTable {table : List (RulesDocument × String)}
    (hnodup : (table.map Prod.snd).Nodup) : (Toml.ofTable table).ReadsBack := by
  intro document text hprint
  simp only [ofTable] at hprint ⊢
  cases hfound : table.find? (·.1 = document) with
  | none => simp [hfound] at hprint
  | some entry =>
    simp only [hfound, Except.ok.injEq] at hprint
    have hentry : entry.1 = document := by simpa using List.find?_some hfound
    cases htext : table.find? (·.2 = text) with
    | none =>
      have hnone := List.find?_eq_none.mp htext entry (List.mem_of_find?_eq_some hfound)
      exact absurd hprint (by simpa using hnone)
    | some other =>
      have hother : other.2 = text := by simpa using List.find?_some htext
      have hsame : other = entry := List.inj_on_of_nodup_map hnodup
        (List.mem_of_find?_eq_some htext) (List.mem_of_find?_eq_some hfound)
        (hother.trans hprint.symm)
      simp [hsame, hentry]

/-- The rule that allows curl the TCP port 443. -/
def curlRule : Rule :=
  { id := 1, executable := "/usr/bin/curl", protocol := some .tcp, direction := some .outbound,
    address := none, hostname := none, port := some 443, verdict := .allow, scope := .permanent }

/-- A connection of curl. -/
def curlConnection : Connection :=
  { executable := "/usr/bin/curl", protocol := .tcp, direction := .outbound,
    address := .v4 ⟨203, 0, 113, 42⟩, hostname := none, port := 443 }

/-- The text of the document with the rule for curl. -/
def curlText : String :=
  "schema_version = 1\n\n[[rules]]\nid = 1\nexecutable = \"/usr/bin/curl\"\nprotocol = \"tcp\"\n" ++
    "direction = \"outbound\"\nport = 443\nverdict = \"allow\"\nscope = \"permanent\"\n"

/-- The library at the document with the rule for curl. -/
def curlToml : Toml := Toml.ofTable [(RulesStore.documentOf ⟨[curlRule]⟩, curlText)]

theorem curlToml_readsBack : curlToml.ReadsBack :=
  Toml.readsBack_ofTable (List.nodup_singleton _)

end InterFire
