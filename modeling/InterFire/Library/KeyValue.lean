import Mathlib.Data.List.Nodup
import InterFire.Library.Text

/-!
# Lines of keys and values

A token `key=value` is read by the first of a list of readers whose key and equals sign it starts
with; a token that no reader takes is passed over when it has an equals sign, and is an error
otherwise. A reader turns a value into a change of what is read so far.

Keys contain no equals sign, so a token has one key (`tokenKey`) and only the reader of that key
takes it, even when a key is the beginning of another. When the changes of different readers commute
(`Independent`), the result does not depend on the order of the tokens nor on tokens with other keys:
`readTokens_of_perm`.
-/

set_option autoImplicit false
set_option relaxedAutoImplicit false

namespace KeyValue

open Text

variable {ε σ : Type}

/-- What a key does with its value. -/
structure Reader (ε σ : Type) where
  key : String
  read : String → Except ε (σ → σ)

/-- A reader that decodes its value and keeps what it decodes. -/
def Reader.decoding {τ : Type} (key : String) (decode : String → Except ε τ) (keep : τ → σ → σ) :
    Reader ε σ :=
  ⟨key, fun value ↦ (decode value).map keep⟩

/-- The token of a key and a value. -/
def token (key value : String) : String := key ++ "=" ++ value

/-- What precedes the first equals sign of a token. -/
def tokenKey (token : String) : String := String.ofList (splitOnce '=' token.toList).1

/-- Read a token. -/
def readToken (malformed : ε) : List (Reader ε σ) → String → Except ε (σ → σ)
  | [], token => if '=' ∈ token.toList then .ok id else .error malformed
  | reader :: rest, token =>
    match token.toList.dropPrefix? (reader.key ++ "=").toList with
    | some value => reader.read (String.ofList value)
    | none => readToken malformed rest token

/-- Read the tokens of a line one after the other. -/
def readTokens (malformed : ε) (readers : List (Reader ε σ)) : List String → σ → Except ε σ
  | [], acc => .ok acc
  | token :: rest, acc =>
    match readToken malformed readers token with
    | .error error => .error error
    | .ok change => readTokens malformed readers rest (change acc)

/-- Readers whose keys are distinct and contain no equals sign. -/
structure Distinct (readers : List (Reader ε σ)) : Prop where
  nodup : (readers.map Reader.key).Nodup
  plain : ∀ reader ∈ readers, '=' ∉ reader.key.toList

/-- The changes of two readers commute. -/
def Commutes (first second : Reader ε σ) : Prop :=
  ∀ (value other : String) (change after : σ → σ), first.read value = .ok change →
    second.read other = .ok after → ∀ acc, change (after acc) = after (change acc)

/-- The changes of readers of different keys commute. -/
def Independent (readers : List (Reader ε σ)) : Prop :=
  ∀ first ∈ readers, ∀ second ∈ readers, first.key ≠ second.key → Commutes first second

/-! ### Independent readers -/

/-- Readers commute when what they keep does. Assumes: it does. -/
theorem commutes_decoding {τ τ' : Type} {key key' : String} {decode : String → Except ε τ}
    {decode' : String → Except ε τ'} {keep : τ → σ → σ} {keep' : τ' → σ → σ}
    (hkeep : ∀ found found' acc, keep found (keep' found' acc) = keep' found' (keep found acc)) :
    Commutes (.decoding key decode keep) (.decoding key' decode' keep') := by
  intro value other change after hchange hafter acc
  have hsome {υ : Type} {result : Except ε υ} {kept : υ → σ → σ} {made : σ → σ}
      (hmap : result.map kept = .ok made) : ∃ found, kept found = made := by
    cases result with
    | error error => cases hmap
    | ok found => exact ⟨found, Except.ok.inj hmap⟩
  obtain ⟨found, rfl⟩ := hsome hchange
  obtain ⟨found', rfl⟩ := hsome hafter
  exact hkeep found found' acc

/-- Readers are independent when each commutes with the later ones. Assumes: it does. -/
theorem independent_of_pairwise {readers : List (Reader ε σ)}
    (hpairwise : readers.Pairwise Commutes) : Independent readers := by
  induction hpairwise with
  | nil => exact nofun
  | cons hfirst _ ih =>
    intro one hone other hother hkeys
    rcases List.mem_cons.mp hone with rfl | honeLater
    · rcases List.mem_cons.mp hother with rfl | hotherLater
      · exact absurd rfl hkeys
      · exact hfirst other hotherLater
    · rcases List.mem_cons.mp hother with rfl | hotherLater
      · intro value value' change after hchange hafter acc
        exact (hfirst one honeLater _ _ _ _ hafter hchange acc).symm
      · exact ih one honeLater other hotherLater hkeys

/-! ### One token -/

theorem toList_token (key value : String) :
    (token key value).toList = key.toList ++ '=' :: value.toList := by
  simp [token]

/-- The key of a token. Assumes: the key has no equals sign. -/
theorem tokenKey_token {key : String} (hkey : '=' ∉ key.toList) (value : String) :
    tokenKey (token key value) = key := by
  rw [tokenKey, toList_token, splitOnce_append hkey, String.ofList_toList]

/-- A token that starts with a key and an equals sign has that key. Assumes: it starts so, and the
key has no equals sign. -/
theorem tokenKey_of_dropPrefix? {key token : String} (hkey : '=' ∉ key.toList) {value : List Char}
    (hbegins : token.toList.dropPrefix? (key ++ "=").toList = some value) :
    tokenKey token = key := by
  obtain ⟨start, htoken, hstart⟩ := List.dropPrefix?_eq_some_iff.mp hbegins
  obtain rfl := eq_of_beq hstart
  have htext : token.toList = key.toList ++ '=' :: value := by simpa using htoken
  rw [tokenKey, htext, splitOnce_append hkey, String.ofList_toList]

/-- A token is read by the reader of its key, or by none. Assumes: it is read, and the keys have no
equals sign. -/
theorem readToken_cases {malformed : ε} {readers : List (Reader ε σ)}
    (hplain : ∀ reader ∈ readers, '=' ∉ reader.key.toList) {token : String} {change : σ → σ}
    (hread : readToken malformed readers token = .ok change) :
    change = id ∨ ∃ reader ∈ readers, reader.key = tokenKey token ∧
      ∃ value, reader.read value = .ok change := by
  induction readers with
  | nil =>
    rw [readToken] at hread
    split_ifs at hread
    exact .inl (Except.ok.inj hread).symm
  | cons first rest ih =>
    rw [readToken] at hread
    split at hread
    · next value hbegins =>
      have hkey := tokenKey_of_dropPrefix? (hplain first List.mem_cons_self) hbegins
      exact .inr ⟨first, List.mem_cons_self, hkey.symm, _, hread⟩
    · rcases ih (fun reader hreader ↦ hplain reader (.tail first hreader)) hread with
        hid | ⟨reader, hreader, hrest⟩
      · exact .inl hid
      · exact .inr ⟨reader, .tail first hreader, hrest⟩

/-- The token of a key is read by the reader of the key. Assumes: the keys are distinct, and it is one
of the readers. -/
theorem readToken_of_mem {readers : List (Reader ε σ)} (hreaders : Distinct readers)
    {reader : Reader ε σ} (hreader : reader ∈ readers) (malformed : ε) (value : String) :
    readToken malformed readers (token reader.key value) = reader.read value := by
  induction readers with
  | nil => cases hreader
  | cons first rest ih =>
    have hrest : Distinct rest :=
      ⟨(List.nodup_cons.mp hreaders.nodup).2,
        fun other hother ↦ hreaders.plain other (.tail first hother)⟩
    rw [readToken]
    rcases List.mem_cons.mp hreader with rfl | hlater
    · have hbegins : (token reader.key value).toList.dropPrefix? (reader.key ++ "=").toList =
          some value.toList := by
        rw [List.dropPrefix?_eq_some_iff]
        exact ⟨_, by simp [token], BEq.rfl⟩
      rw [hbegins]
      exact congrArg reader.read String.ofList_toList
    · have hne : first.key ≠ reader.key := by
        intro hsame
        exact (List.nodup_cons.mp hreaders.nodup).1 (hsame ▸ List.mem_map_of_mem hlater)
      split
      · next found hbegins =>
        have hkey := tokenKey_of_dropPrefix? (hreaders.plain first List.mem_cons_self) hbegins
        rw [tokenKey_token (hreaders.plain reader hreader)] at hkey
        exact absurd hkey.symm hne
      · exact ih hrest hlater

/-- A token with another key changes nothing. Assumes: it has an equals sign, and its key is none of
the readers'. -/
theorem readToken_of_not_mem {readers : List (Reader ε σ)} {token : String}
    (hplain : ∀ reader ∈ readers, '=' ∉ reader.key.toList) (hequals : '=' ∈ token.toList)
    (hkey : tokenKey token ∉ readers.map Reader.key) (malformed : ε) :
    readToken malformed readers token = .ok id := by
  induction readers with
  | nil => rw [readToken, if_pos hequals]
  | cons first rest ih =>
    rw [List.map_cons, List.mem_cons, not_or] at hkey
    rw [readToken]
    split
    · next value hbegins =>
      exact absurd (tokenKey_of_dropPrefix? (hplain first List.mem_cons_self) hbegins) hkey.1
    · exact ih (fun reader hreader ↦ hplain reader (.tail first hreader)) hkey.2

/-! ### A line of tokens -/

/-- Make the change of a token, and none when it is not read. -/
def change (malformed : ε) (readers : List (Reader ε σ)) (acc : σ) (token : String) : σ :=
  match readToken malformed readers token with
  | .ok found => found acc
  | .error _ => acc

/-- A line that is read makes the changes of its tokens one after the other. Assumes: each token is
read. -/
theorem readTokens_eq_foldl {malformed : ε} {readers : List (Reader ε σ)} {line : List String}
    (hreads : ∀ token ∈ line, ∃ found, readToken malformed readers token = .ok found) (acc : σ) :
    readTokens malformed readers line acc = .ok (line.foldl (change malformed readers) acc) := by
  induction line generalizing acc with
  | nil => rfl
  | cons first rest ih =>
    obtain ⟨found, hfound⟩ := hreads first List.mem_cons_self
    have hchange : change malformed readers acc first = found acc := by rw [change, hfound]
    rw [readTokens, hfound, List.foldl_cons, hchange]
    exact ih (fun token htoken ↦ hreads token (.tail first htoken)) _

/-- A token with another key makes no change. Assumes: it has an equals sign, and its key is none of
the readers'. -/
theorem change_of_not_mem {readers : List (Reader ε σ)} {token : String}
    (hplain : ∀ reader ∈ readers, '=' ∉ reader.key.toList) (hequals : '=' ∈ token.toList)
    (hkey : tokenKey token ∉ readers.map Reader.key) (malformed : ε) (acc : σ) :
    change malformed readers acc token = acc := by
  rw [change, readToken_of_not_mem hplain hequals hkey]
  rfl

/-- The changes of tokens with different keys commute. Assumes: the keys differ and have no equals
sign, and the readers are independent. -/
theorem change_comm {malformed : ε} {readers : List (Reader ε σ)}
    (hplain : ∀ reader ∈ readers, '=' ∉ reader.key.toList) (hindependent : Independent readers)
    {first second : String} (hkeys : tokenKey first ≠ tokenKey second) (acc : σ) :
    change malformed readers (change malformed readers acc first) second =
      change malformed readers (change malformed readers acc second) first := by
  unfold change
  cases hfirst : readToken malformed readers first with
  | error error => rfl
  | ok found =>
    cases hsecond : readToken malformed readers second with
    | error error => rfl
    | ok found' =>
      dsimp only
      rcases readToken_cases hplain hfirst with rfl | ⟨reader, hmem, hkey, value, hread⟩
      · rfl
      rcases readToken_cases hplain hsecond with rfl | ⟨reader', hmem', hkey', value', hread'⟩
      · rfl
      exact (hindependent reader hmem reader' hmem' (by rwa [hkey, hkey']) _ _ _ _ hread hread' acc).symm

/-- The order of the tokens does not matter, nor do tokens with other keys. Assumes: the readers are
distinct and independent, the known tokens are read and have distinct keys, the other tokens have an
equals sign and other keys, and the line is made of both. -/
theorem readTokens_of_perm {malformed : ε} {readers : List (Reader ε σ)}
    (hreaders : Distinct readers) (hindependent : Independent readers)
    {known extra line : List String}
    (hknown : ∀ token ∈ known, ∃ found, readToken malformed readers token = .ok found)
    (hnodup : (known.map tokenKey).Nodup)
    (hextra : ∀ token ∈ extra, '=' ∈ token.toList ∧ tokenKey token ∉ readers.map Reader.key)
    (hperm : line.Perm (known ++ extra)) (acc : σ) :
    readTokens malformed readers line acc = readTokens malformed readers known acc := by
  have hskip : ∀ token ∈ extra, ∀ acc, change malformed readers acc token = acc :=
    fun token htoken ↦ change_of_not_mem hreaders.plain (hextra token htoken).1
      (hextra token htoken).2 malformed
  have hread : ∀ token ∈ line, ∃ found, readToken malformed readers token = .ok found := by
    intro token htoken
    rcases List.mem_append.mp (hperm.mem_iff.mp htoken) with hin | hout
    · exact hknown token hin
    · exact ⟨id, readToken_of_not_mem hreaders.plain (hextra token hout).1 (hextra token hout).2 _⟩
  -- Two known tokens have different keys; the other tokens change nothing.
  have hcommute : ∀ first ∈ known ++ extra, ∀ second ∈ known ++ extra, ∀ acc,
      change malformed readers (change malformed readers acc first) second =
        change malformed readers (change malformed readers acc second) first := by
    intro first hfirst second hsecond acc
    rcases List.mem_append.mp hfirst with hfirst | hfirst
    · rcases List.mem_append.mp hsecond with hsecond | hsecond
      · by_cases hsame : first = second
        · rw [hsame]
        · refine change_comm hreaders.plain hindependent (fun hkey ↦ hsame ?_) acc
          exact List.inj_on_of_nodup_map hnodup hfirst hsecond hkey
      · rw [hskip second hsecond, hskip second hsecond]
    · rw [hskip first hfirst, hskip first hfirst]
  have htail : ∀ acc, extra.foldl (change malformed readers) acc = acc := fun acc ↦
    (List.foldl_ext _ (fun acc _ ↦ acc) acc fun acc token htoken ↦ hskip token htoken acc).trans
      (List.foldl_fixed extra)
  rw [readTokens_eq_foldl hknown, readTokens_eq_foldl hread,
    ← hperm.symm.foldl_eq' hcommute acc, List.foldl_append, htail]

/-! ### Lines that are written -/

/-- A key with a value that is written for it, and the change that reading the value makes. -/
structure Binding (σ : Type) where
  key : String
  value : String
  change : σ → σ

/-- The token of a binding. -/
def Binding.token (binding : Binding σ) : String := KeyValue.token binding.key binding.value

/-- A reader of the key reads the value as the change. -/
def Binding.BoundBy (readers : List (Reader ε σ)) (binding : Binding σ) : Prop :=
  ∃ reader ∈ readers, reader.key = binding.key ∧ reader.read binding.value = .ok binding.change

/-- The token of a binding is read as its change. Assumes: the readers are distinct, and one of them
reads the value so. -/
theorem Binding.BoundBy.readToken {readers : List (Reader ε σ)} (hreaders : Distinct readers)
    {binding : Binding σ} (hbound : binding.BoundBy readers) (malformed : ε) :
    KeyValue.readToken malformed readers binding.token = .ok binding.change := by
  obtain ⟨reader, hmem, hkey, hread⟩ := hbound
  rw [Binding.token, ← hkey, readToken_of_mem hreaders hmem, hread]

/-- A line with the tokens of bindings makes their changes, in whatever order the tokens come and
whatever tokens with other keys are among them. Assumes: the readers are distinct and independent,
they read the bindings, whose keys are distinct, and the other tokens have an equals sign and other
keys. -/
theorem readTokens_of_bindings {malformed : ε} {readers : List (Reader ε σ)}
    (hreaders : Distinct readers) (hindependent : Independent readers)
    {bindings : List (Binding σ)} (hbound : ∀ binding ∈ bindings, binding.BoundBy readers)
    (hnodup : (bindings.map Binding.key).Nodup) {extra line : List String}
    (hextra : ∀ token ∈ extra, '=' ∈ token.toList ∧ tokenKey token ∉ readers.map Reader.key)
    (hperm : line.Perm (bindings.map Binding.token ++ extra)) (acc : σ) :
    readTokens malformed readers line acc =
      .ok (bindings.foldl (fun acc binding ↦ binding.change acc) acc) := by
  have hread : ∀ token ∈ bindings.map Binding.token,
      ∃ found, readToken malformed readers token = .ok found := by
    intro token htoken
    obtain ⟨binding, hbinding, rfl⟩ := List.mem_map.mp htoken
    exact ⟨_, (hbound binding hbinding).readToken hreaders malformed⟩
  have hkeys : (bindings.map Binding.token).map tokenKey = bindings.map Binding.key := by
    rw [List.map_map]
    refine List.map_congr_left fun binding hbinding ↦ ?_
    obtain ⟨reader, hmem, hkey, _⟩ := hbound binding hbinding
    exact tokenKey_token (hkey ▸ hreaders.plain reader hmem) _
  rw [readTokens_of_perm hreaders hindependent hread (hkeys ▸ hnodup) hextra hperm,
    readTokens_eq_foldl hread, List.foldl_map]
  refine congrArg Except.ok (List.foldl_ext _ _ acc fun acc binding hbinding ↦ ?_)
  rw [change, (hbound binding hbinding).readToken hreaders malformed]

end KeyValue
