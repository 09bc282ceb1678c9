import InterFire.Authority
import InterFire.Library.Permissions
import InterFire.Library.Run

/-!
# The socket of the operators

How the daemon makes its socket (`main`) and opens it to the operator group
(`prepare_operator_socket` of `operator_auth.rs`), system call by system call, with clients that
connect at any moment. A client that connects before the start is over waits and is served after it.
The check of a request (`uid_may_mutate`) asks the user database, while the kernel asks the groups
that the client's process has. The directories above that of the socket are taken as open to
everybody.

`stranger_served_iff` says when somebody who has nothing to do with the daemon can be served: exactly
when the mask of the daemon leaves everybody the right to write, and the directory of the socket is
open at the start. `changes_policy_iff` says who can connect and change something once the start is
over. The failures that the start ignores leave out operators, who are not told.
-/

set_option autoImplicit false
set_option relaxedAutoImplicit false

namespace InterFire

open Permissions Run

/-! ### The user database -/

/-- An entry of the user database. -/
structure User where
  name : String
  gid : UInt32
  deriving DecidableEq, Repr

/-- What the system answers about groups and users. -/
structure UserDatabase where
  groupFromName : String → Option UInt32
  userFromUid : UInt32 → Option User
  getgrouplist : String → UInt32 → Option (List UInt32)

/-- The group that may connect and change the policy. -/
def operatorGroup : String := "interfire"

namespace UserDatabase

/-- A name with a null character is no name for `getgrouplist`. -/
def userInGid (database : UserDatabase) (user : User) (target : UInt32) : Bool :=
  if user.gid = target then true
  else if '\x00' ∈ user.name.toList then false
  else (database.getgrouplist user.name user.gid).any fun gids ↦ target ∈ gids

def uidInNamedGroup (database : UserDatabase) (uid : UInt32) (groupName : String) : Bool :=
  match database.groupFromName groupName with
  | none => false
  | some target =>
    match database.userFromUid uid with
    | none => false
    | some user => database.userInGid user target

/-- Who the database has in a group. -/
def Member (database : UserDatabase) (uid : UInt32) (groupName : String) : Prop :=
  ∃ target user, database.groupFromName groupName = some target ∧
    database.userFromUid uid = some user ∧
    (user.gid = target ∨ ('\x00' ∉ user.name.toList ∧
      ∃ gids, database.getgrouplist user.name user.gid = some gids ∧ target ∈ gids))

theorem userInGid_iff (database : UserDatabase) (user : User) (target : UInt32) :
    database.userInGid user target = true ↔
      user.gid = target ∨ ('\x00' ∉ user.name.toList ∧
        ∃ gids, database.getgrouplist user.name user.gid = some gids ∧ target ∈ gids) := by
  unfold userInGid
  split_ifs with hprimary hnull
  · simp [hprimary]
  · simp [hprimary, hnull]
  · simp [hprimary, hnull, Option.any_eq_true_iff_get, Option.eq_some_iff_get_eq]

theorem uidInNamedGroup_iff (database : UserDatabase) (uid : UInt32) (groupName : String) :
    database.uidInNamedGroup uid groupName = true ↔ database.Member uid groupName := by
  unfold uidInNamedGroup Member
  cases database.groupFromName groupName with
  | none => simp
  | some target =>
    cases database.userFromUid uid with
    | none => simp
    | some user => simp [userInGid_iff]

end UserDatabase

/-! ### The start -/

inductive GroupLookup
  | present (gid : UInt32)
  | missing
  deriving DecidableEq, Repr

/-- `resolve_group`: a group that cannot be looked up is a missing one. -/
def UserDatabase.resolveGroup (database : UserDatabase) (name : String) : GroupLookup :=
  match database.groupFromName name with
  | some gid => .present gid
  | none => .missing

/-- What a start meets: who the daemon is, its mask, and the operator group. -/
structure SocketSetting where
  uid : UInt32
  gid : UInt32
  umask : ℕ
  lookup : GroupLookup
  deriving DecidableEq, Repr

namespace SocketSetting

/-- A file that the daemon makes with all rights. -/
def made (setting : SocketSetting) : Inode :=
  { uid := setting.uid, gid := setting.gid, mode := masked setting.umask 0o777 }

end SocketSetting

/-- The system call that the daemon makes next. -/
inductive SocketPhase
  | createParent
  | removeStale
  | bind
  | parentGroup (gid : UInt32)
  | parentMode (gid : UInt32)
  | socketGroup (gid : UInt32)
  | socketMode (mode : ℕ)
  | listening
  | failed
  deriving DecidableEq, Repr

/-- The start of a daemon: what is at its paths, whether its socket is bound, and whose connections it
has. -/
structure SocketStart where
  phase : SocketPhase
  parent : Option Inode
  socket : Option Inode
  bound : Bool
  connections : List Credentials

/-- A system call of the daemon, which may fail, or a client. -/
inductive SocketOp
  | daemon (succeeds : Bool)
  | connect (who : Credentials)
  deriving DecidableEq, Repr

namespace SocketStart

def begin (parent stale : Option Inode) : SocketStart :=
  { phase := .createParent, parent, socket := stale, bound := false, connections := [] }

/-- The daemon exits, and its connections end. -/
def fail (start : SocketStart) : SocketStart :=
  { start with phase := .failed, bound := false, connections := [] }

/-- `prepare_operator_socket_with` without its calls: what comes after the socket is bound. -/
def prepareOperatorSocketWith : GroupLookup → SocketPhase
  | .present gid => .parentGroup gid
  | .missing => .socketMode 0o600

/-- A system call of the daemon. The directory is made with the mask when it is missing, and what cannot
be done to it later is ignored. -/
def advance (setting : SocketSetting) (start : SocketStart) (succeeds : Bool) : SocketStart :=
  match start.phase with
  | .createParent =>
    if succeeds then
      { start with phase := .removeStale, parent := some (start.parent.getD setting.made) }
    else start.fail
  | .removeStale =>
    if start.socket.isNone || succeeds then { start with phase := .bind, socket := none }
    else start.fail
  | .bind =>
    if succeeds then
      { start with
        phase := prepareOperatorSocketWith setting.lookup
        socket := some setting.made
        bound := true }
    else start.fail
  | .parentGroup gid =>
    { start with
      phase := .parentMode gid
      parent := if succeeds then start.parent.map ({ · with gid }) else start.parent }
  | .parentMode gid =>
    { start with
      phase := .socketGroup gid
      parent := if succeeds then start.parent.map ({ · with mode := 0o750 }) else start.parent }
  | .socketGroup gid =>
    if succeeds then
      { start with phase := .socketMode 0o660, socket := start.socket.map ({ · with gid }) }
    else start.fail
  | .socketMode mode =>
    if succeeds then
      { start with phase := .listening, socket := start.socket.map ({ · with mode }) }
    else start.fail
  | .listening | .failed => start

/-- A client can connect that may search the directory and write to the socket. -/
def connects (start : SocketStart) (who : Credentials) : Bool :=
  start.bound && start.parent.any (who.may · execute) && start.socket.any (who.may · write)

def step (setting : SocketSetting) (start : SocketStart) : SocketOp → SocketStart
  | .daemon succeeds => start.advance setting succeeds
  | .connect who =>
    if start.connects who then { start with connections := who :: start.connections } else start

/-- The daemon serves the connections that it has once it listens. -/
def Serves (start : SocketStart) (who : Credentials) : Prop :=
  start.phase = .listening ∧ who ∈ start.connections

/-! ### What the start has made of the socket -/

/-- The socket in each phase of a start. -/
def Prepared (setting : SocketSetting) (start : SocketStart) : Prop :=
  match start.phase with
  | .createParent | .removeStale | .bind | .failed => start.bound = false
  | .parentGroup gid | .parentMode gid | .socketGroup gid =>
    start.bound = true ∧ setting.lookup = .present gid ∧ start.socket = some setting.made
  | .socketMode mode =>
    start.bound = true ∧
      ((∃ gid, setting.lookup = .present gid ∧ mode = 0o660 ∧
          start.socket = some { setting.made with gid }) ∨
        (setting.lookup = .missing ∧ mode = 0o600 ∧ start.socket = some setting.made))
  | .listening =>
    start.bound = true ∧
      ((∃ gid, setting.lookup = .present gid ∧
          start.socket = some { setting.made with gid, mode := 0o660 }) ∨
        (setting.lookup = .missing ∧ start.socket = some { setting.made with mode := 0o600 }))

theorem prepared_fail (setting : SocketSetting) (start : SocketStart) :
    start.fail.Prepared setting := rfl

/-- A system call keeps the socket as its phase has it. -/
theorem prepared_advance {setting : SocketSetting} {start : SocketStart}
    (hprepared : start.Prepared setting) (succeeds : Bool) :
    (start.advance setting succeeds).Prepared setting := by
  obtain ⟨phase, parent, socket, bound, connections⟩ := start
  cases phase with
  | createParent =>
    cases succeeds with
    | false => exact prepared_fail setting _
    | true => exact hprepared
  | removeStale =>
    unfold advance
    dsimp only
    split_ifs
    · exact hprepared
    · exact prepared_fail setting _
  | bind =>
    cases succeeds with
    | false => exact prepared_fail setting _
    | true =>
      show Prepared setting ⟨prepareOperatorSocketWith setting.lookup, _, _, _, _⟩
      cases hlookup : setting.lookup with
      | present gid => exact ⟨rfl, hlookup, rfl⟩
      | missing => exact ⟨rfl, .inr ⟨hlookup, rfl, rfl⟩⟩
  | parentGroup gid => exact hprepared
  | parentMode gid => exact hprepared
  | socketGroup gid =>
    cases succeeds with
    | false => exact prepared_fail setting _
    | true =>
      obtain ⟨hbound, hlookup, hsocket⟩ := hprepared
      obtain rfl : socket = some setting.made := hsocket
      exact ⟨hbound, .inl ⟨gid, hlookup, rfl, rfl⟩⟩
  | socketMode mode =>
    cases succeeds with
    | false => exact prepared_fail setting _
    | true =>
      obtain ⟨hbound, ⟨gid, hlookup, rfl, hsocket⟩ | ⟨hlookup, rfl, hsocket⟩⟩ := hprepared
      · obtain rfl : socket = some { setting.made with gid } := hsocket
        exact ⟨hbound, .inl ⟨gid, hlookup, rfl⟩⟩
      · obtain rfl : socket = some setting.made := hsocket
        exact ⟨hbound, .inr ⟨hlookup, rfl⟩⟩
  | listening => exact hprepared
  | failed => exact hprepared

theorem prepared_step {setting : SocketSetting} {start : SocketStart}
    (hprepared : start.Prepared setting) (op : SocketOp) :
    (start.step setting op).Prepared setting := by
  cases op with
  | daemon succeeds => exact prepared_advance hprepared succeeds
  | connect who =>
    unfold step
    dsimp only
    split_ifs
    · exact hprepared
    · exact hprepared

/-- A bound socket belongs to the daemon, and to its group or the operator group. Its mode is the one
that it was made with, or one without rights for everybody else. -/
theorem socket_of_bound {setting : SocketSetting} {start : SocketStart}
    (hprepared : start.Prepared setting) (hbound : start.bound = true) :
    ∃ inode, start.socket = some inode ∧ inode.uid = setting.uid ∧
      (inode.gid = setting.gid ∨ setting.lookup = .present inode.gid) ∧
      (inode.mode = setting.made.mode ∨ inode.mode = 0o660 ∨ inode.mode = 0o600) := by
  unfold Prepared at hprepared
  split at hprepared
  · exact absurd (hprepared.symm.trans hbound) nofun
  · exact absurd (hprepared.symm.trans hbound) nofun
  · exact absurd (hprepared.symm.trans hbound) nofun
  · exact absurd (hprepared.symm.trans hbound) nofun
  · exact ⟨_, hprepared.2.2, rfl, .inl rfl, .inl rfl⟩
  · exact ⟨_, hprepared.2.2, rfl, .inl rfl, .inl rfl⟩
  · exact ⟨_, hprepared.2.2, rfl, .inl rfl, .inl rfl⟩
  · obtain ⟨_, ⟨gid, hlookup, _, hsocket⟩ | ⟨_, _, hsocket⟩⟩ := hprepared
    · exact ⟨_, hsocket, rfl, .inr hlookup, .inl rfl⟩
    · exact ⟨_, hsocket, rfl, .inl rfl, .inl rfl⟩
  · obtain ⟨_, ⟨gid, hlookup, hsocket⟩ | ⟨_, hsocket⟩⟩ := hprepared
    · exact ⟨_, hsocket, rfl, .inr hlookup, .inr (.inl rfl)⟩
    · exact ⟨_, hsocket, rfl, .inl rfl, .inr (.inr rfl)⟩

/-! ### Strangers -/

/-- Somebody who has nothing to do with the daemon: not the superuser, the daemon or the owner of its
directory, and in none of their groups or the operator group. -/
structure Stranger (setting : SocketSetting) (directory : Option Inode) (who : Credentials) :
    Prop where
  made : who.Outside setting.made
  directory : ∀ inode, directory = some inode → who.Outside inode
  operator : ∀ gid, setting.lookup = .present gid → gid ∉ who.gids

/-- The daemon leaves everybody the right to write to the socket that it makes, and its directory is
open at the start. -/
def Exposed (setting : SocketSetting) (directory : Option Inode) : Prop :=
  setting.umask.testBit write = false ∧ (directory.getD setting.made).mode.testBit execute = true

/-- What a stranger meets. -/
structure Meets (setting : SocketSetting) (directory : Option Inode) (who : Credentials)
    (start : SocketStart) : Prop where
  prepared : start.Prepared setting
  initial : start.phase = .createParent → start.parent = directory
  parent : ∀ inode, start.parent = some inode → who.Outside inode ∧
    (inode.mode = (directory.getD setting.made).mode ∨ inode.mode = 0o750)
  connections : who ∈ start.connections → Exposed setting directory

variable {setting : SocketSetting} {directory : Option Inode} {who : Credentials}

/-- A stranger that connects finds the socket as it was made, and the directory as it was. Assumes: the
stranger, and what it meets. -/
theorem exposed_of_connects {start : SocketStart} (hstranger : Stranger setting directory who)
    (hmeets : Meets setting directory who start) (hconnects : start.connects who = true) :
    Exposed setting directory := by
  simp only [connects, Bool.and_eq_true] at hconnects
  obtain ⟨⟨hbound, hparent⟩, hsocket⟩ := hconnects
  obtain ⟨inode, hinode, huid, hgid, hmode⟩ := socket_of_bound hmeets.prepared hbound
  rw [hinode] at hsocket
  have hmayWrite : who.may inode write = true := hsocket
  have houtside : who.Outside inode := by
    refine ⟨hstranger.made.root, fun hsame ↦ hstranger.made.uid (hsame.trans huid), ?_⟩
    rcases hgid with hown | hlookup
    · rw [hown]
      exact hstranger.made.gid
    · exact hstranger.operator _ hlookup
  rw [houtside.may] at hmayWrite
  constructor
  · rcases hmode with hmade | hmode | hmode
    · rw [hmade, SocketSetting.made, testBit_masked, Bool.and_eq_true] at hmayWrite
      simpa using hmayWrite.2
    · rw [hmode] at hmayWrite
      exact absurd hmayWrite (by decide)
    · rw [hmode] at hmayWrite
      exact absurd hmayWrite (by decide)
  · obtain ⟨found, hfound, hmaySearch⟩ := (Option.any_eq_true _ _).mp hparent
    obtain ⟨houtside', hmode'⟩ := hmeets.parent found hfound
    rw [houtside'.may] at hmaySearch
    rcases hmode' with hsame | hclosed
    · rw [← hsame]
      exact hmaySearch
    · rw [hclosed] at hmaySearch
      exact absurd hmaySearch (by decide)

/-- The directory stays foreign to a stranger, with the mode that it had or a closed one. Assumes: the
stranger, and what it meets. -/
theorem parent_advance {start : SocketStart} (hstranger : Stranger setting directory who)
    (hmeets : Meets setting directory who start) (succeeds : Bool) {inode : Inode}
    (hinode : (start.advance setting succeeds).parent = some inode) :
    who.Outside inode ∧
      (inode.mode = (directory.getD setting.made).mode ∨ inode.mode = 0o750) := by
  obtain ⟨phase, parent, socket, bound, connections⟩ := start
  obtain ⟨hprepared, hinitial, hparent, _⟩ := hmeets
  cases phase with
  | createParent =>
    cases succeeds with
    | false => exact hparent inode hinode
    | true =>
      obtain rfl : parent = directory := hinitial rfl
      obtain rfl : parent.getD setting.made = inode := Option.some.inj hinode
      refine ⟨?_, .inl rfl⟩
      cases hdirectory : parent with
      | none => exact hstranger.made
      | some found => exact hstranger.directory found hdirectory
  | removeStale =>
    unfold advance at hinode
    dsimp only at hinode
    split_ifs at hinode <;> exact hparent inode hinode
  | bind => cases succeeds <;> exact hparent inode hinode
  | parentGroup gid =>
    cases succeeds with
    | false => exact hparent inode hinode
    | true =>
      obtain ⟨found, hfound, rfl⟩ := Option.map_eq_some_iff.mp hinode
      obtain ⟨houtside, hmode⟩ := hparent found hfound
      exact ⟨⟨houtside.root, houtside.uid, hstranger.operator gid hprepared.2.1⟩, hmode⟩
  | parentMode gid =>
    cases succeeds with
    | false => exact hparent inode hinode
    | true =>
      obtain ⟨found, hfound, rfl⟩ := Option.map_eq_some_iff.mp hinode
      obtain ⟨houtside, _⟩ := hparent found hfound
      exact ⟨⟨houtside.root, houtside.uid, houtside.gid⟩, .inr rfl⟩
  | socketGroup gid => cases succeeds <;> exact hparent inode hinode
  | socketMode mode => cases succeeds <;> exact hparent inode hinode
  | listening => exact hparent inode hinode
  | failed => exact hparent inode hinode

/-- A system call makes no connections. -/
theorem mem_connections_advance {start : SocketStart} (succeeds : Bool)
    (hmem : who ∈ (start.advance setting succeeds).connections) : who ∈ start.connections := by
  obtain ⟨phase, parent, socket, bound, connections⟩ := start
  cases phase with
  | removeStale =>
    unfold advance at hmem
    dsimp only at hmem
    split_ifs at hmem
    · exact hmem
    · cases hmem
  | parentGroup _ | parentMode _ | listening | failed => exact hmem
  | createParent | bind | socketGroup _ | socketMode _ =>
    cases succeeds with
    | false => cases hmem
    | true => exact hmem

theorem phase_advance_ne (start : SocketStart) (succeeds : Bool) :
    (start.advance setting succeeds).phase ≠ .createParent := by
  obtain ⟨phase, parent, socket, bound, connections⟩ := start
  cases phase with
  | removeStale =>
    unfold advance
    dsimp only
    split_ifs <;> exact nofun
  | bind =>
    cases succeeds with
    | false => exact nofun
    | true =>
      show prepareOperatorSocketWith setting.lookup ≠ .createParent
      cases setting.lookup <;> exact nofun
  | parentGroup _ | parentMode _ | listening | failed => exact nofun
  | createParent | socketGroup _ | socketMode _ => cases succeeds <;> exact nofun

theorem meets_step {start : SocketStart} (hstranger : Stranger setting directory who)
    (hmeets : Meets setting directory who start) (op : SocketOp) :
    Meets setting directory who (start.step setting op) := by
  have hprepared := prepared_step hmeets.prepared op
  cases op with
  | daemon succeeds =>
    exact ⟨hprepared, fun hphase ↦ absurd hphase (phase_advance_ne start succeeds),
      fun inode hinode ↦ parent_advance hstranger hmeets succeeds hinode,
      fun hmem ↦ hmeets.connections (mem_connections_advance succeeds hmem)⟩
  | connect other =>
    unfold step at hprepared ⊢
    dsimp only at hprepared ⊢
    split_ifs with hconnects
    · refine ⟨?_, hmeets.initial, hmeets.parent, fun hmem ↦ ?_⟩
      · rwa [if_pos hconnects] at hprepared
      · rcases List.mem_cons.mp hmem with rfl | hearlier
        · exact exposed_of_connects hstranger hmeets hconnects
        · exact hmeets.connections hearlier
    · exact hmeets

/-- When a stranger is served in some run of a start: exactly when the daemon leaves everybody the right
to write to the socket that it makes, and its directory is open at the start. Assumes: the stranger. -/
theorem stranger_served_iff (stale : Option Inode) (hstranger : Stranger setting directory who) :
    (∃ ops : List SocketOp, Serves (ops.foldl (step setting) (begin directory stale)) who) ↔
      setting.umask.testBit write = false ∧
        (directory.getD setting.made).mode.testBit execute = true := by
  constructor
  · rintro ⟨ops, _, hmem⟩
    have hbegin : Meets setting directory who (begin directory stale) := by
      refine ⟨rfl, fun _ ↦ rfl, fun inode hinode ↦ ?_, nofun⟩
      have hdirectory : directory = some inode := hinode
      refine ⟨hstranger.directory inode hdirectory, .inl ?_⟩
      rw [hdirectory]
      rfl
    have hmeets := stateAt_invariant (step setting) (begin directory stale) ops
      (Meets setting directory who) hbegin (fun _ op hmeets ↦ meets_step hstranger hmeets op)
      ops.length
    rw [stateAt_length] at hmeets
    exact hmeets.connections hmem
  · rintro ⟨hwrite, hexecute⟩
    have hmayWrite : who.may setting.made write = true := by
      rw [hstranger.made.may, SocketSetting.made, testBit_masked, hwrite]
      rfl
    have hmaySearch : who.may (directory.getD setting.made) execute = true := by
      have houtside : who.Outside (directory.getD setting.made) := by
        cases hdirectory : directory with
        | none => exact hstranger.made
        | some found => exact hstranger.directory found hdirectory
      rw [houtside.may]
      exact hexecute
    have hbound : [SocketOp.daemon true, .daemon true, .daemon true].foldl (step setting)
        (begin directory stale) = ⟨prepareOperatorSocketWith setting.lookup,
          some (directory.getD setting.made), some setting.made, true, []⟩ := by
      cases stale <;> rfl
    have hconnects : ([SocketOp.daemon true, .daemon true, .daemon true].foldl (step setting)
        (begin directory stale)).connects who = true := by
      rw [hbound]
      simp only [connects, Option.any_some, hmaySearch, hmayWrite, Bool.and_true]
    refine ⟨[.daemon true, .daemon true, .daemon true] ++ [.connect who, .daemon true, .daemon true,
      .daemon true, .daemon true], ?_⟩
    rw [List.foldl_append, List.foldl_cons, step, if_pos hconnects, hbound]
    cases hlookup : setting.lookup with
    | present gid => exact ⟨rfl, List.mem_singleton.mpr rfl⟩
    | missing => exact ⟨rfl, List.mem_singleton.mpr rfl⟩

/-- Under a mask without bits everybody gets in before the socket is closed, and under the usual mask
nobody does. -/
theorem stranger_served_iff_masks :
    (∃ ops : List SocketOp, Serves (ops.foldl (step ⟨0, 0, 0, .present 990⟩)
        (begin (some ⟨0, 990, 0o755⟩) none)) ⟨1000, [1000]⟩) ∧
      ¬ ∃ ops : List SocketOp, Serves (ops.foldl (step ⟨0, 0, 0o022, .present 990⟩)
        (begin (some ⟨0, 990, 0o755⟩) none)) ⟨1000, [1000]⟩ := by
  have hstranger : ∀ umask, Stranger ⟨0, 0, umask, .present 990⟩ (some ⟨0, 990, 0o755⟩)
      ⟨1000, [1000]⟩ := by
    intro umask
    have huid : (1000 : UInt32) ≠ 0 := by decide
    have hgid : (0 : UInt32) ∉ [(1000 : UInt32)] := by decide
    refine ⟨⟨huid, huid, hgid⟩, ?_, ?_⟩
    · rintro _ ⟨⟩
      exact ⟨by decide, by decide, by decide⟩
    · rintro _ ⟨⟩
      decide
  exact ⟨(stranger_served_iff none (hstranger 0)).mpr (by decide),
    fun hserved ↦ absurd ((stranger_served_iff none (hstranger 0o022)).mp hserved) (by decide)⟩

/-! ### Operators -/

/-- The directory is there once it was made. -/
theorem isSome_parent_advance {start : SocketStart} (succeeds : Bool)
    (hparent : start.phase = .createParent ∨ start.phase = .failed ∨ start.parent.isSome) :
    (start.advance setting succeeds).phase = .createParent ∨
      (start.advance setting succeeds).phase = .failed ∨
      (start.advance setting succeeds).parent.isSome := by
  obtain ⟨phase, parent, socket, bound, connections⟩ := start
  cases phase with
  | createParent =>
    cases succeeds with
    | false => exact .inr (.inl rfl)
    | true => exact .inr (.inr rfl)
  | removeStale =>
    unfold advance
    dsimp only
    split_ifs
    · exact .inr (.inr (by simpa using hparent))
    · exact .inr (.inl rfl)
  | bind | socketGroup _ | socketMode _ =>
    have hsome : parent.isSome = true := by simpa using hparent
    cases succeeds with
    | false => exact .inr (.inl rfl)
    | true => exact .inr (.inr hsome)
  | parentGroup _ | parentMode _ =>
    have hsome : parent.isSome = true := by simpa using hparent
    refine .inr (.inr ?_)
    cases succeeds with
    | false => exact hsome
    | true => exact Option.isSome_map.trans hsome
  | listening => exact hparent
  | failed => exact hparent

theorem isSome_parent_step {start : SocketStart} (op : SocketOp)
    (hparent : start.phase = .createParent ∨ start.phase = .failed ∨ start.parent.isSome) :
    (start.step setting op).phase = .createParent ∨ (start.step setting op).phase = .failed ∨
      (start.step setting op).parent.isSome := by
  cases op with
  | daemon succeeds => exact isSome_parent_advance succeeds hparent
  | connect who =>
    unfold step
    dsimp only
    split_ifs <;> exact hparent

/-- The context of the requests of a client. -/
def requestContext (setting : SocketSetting) (database : UserDatabase) (context : RequestContext)
    (who : Credentials) : RequestContext :=
  { context with
    peerUid := some who.uid
    daemonUid := setting.uid
    inOperatorGroup := fun uid ↦ database.uidInNamedGroup uid operatorGroup }

/-- Who may write to the socket of a daemon that listens. -/
theorem may_write_iff {start : SocketStart} (hprepared : start.Prepared setting)
    (hlistening : start.phase = .listening) (who : Credentials) :
    start.bound = true ∧ ∃ inode, start.socket = some inode ∧
      (who.may inode write = true ↔ who.uid = 0 ∨ who.uid = setting.uid ∨
        ∃ gid, setting.lookup = .present gid ∧ gid ∈ who.gids) := by
  unfold Prepared at hprepared
  rw [hlistening] at hprepared
  obtain ⟨hbound, ⟨gid, hlookup, hsocket⟩ | ⟨hlookup, hsocket⟩⟩ := hprepared
  · refine ⟨hbound, _, hsocket, ?_⟩
    have hgroup : (∃ gid', setting.lookup = .present gid' ∧ gid' ∈ who.gids) ↔ gid ∈ who.gids := by
      rw [hlookup]
      exact ⟨fun ⟨_, hsame, hmem⟩ ↦ GroupLookup.present.inj hsame ▸ hmem, fun hmem ↦ ⟨gid, rfl, hmem⟩⟩
    rw [hgroup]
    by_cases hroot : who.uid = 0
    · simp [hroot, Credentials.may_root hroot]
    by_cases huid : who.uid = setting.uid
    · rw [Credentials.may_owner hroot huid]
      have hbit : Nat.testBit 0o660 (6 + write) = true := by decide
      exact ⟨fun _ ↦ .inr (.inl huid), fun _ ↦ hbit⟩
    by_cases hmem : gid ∈ who.gids
    · rw [Credentials.may_group hroot huid hmem]
      have hbit : Nat.testBit 0o660 (3 + write) = true := by decide
      exact ⟨fun _ ↦ .inr (.inr hmem), fun _ ↦ hbit⟩
    · rw [Credentials.Outside.may ⟨hroot, huid, hmem⟩]
      have hbit : ¬ Nat.testBit 0o660 write = true := by decide
      simp only [hroot, huid, hmem, or_self, iff_false]
      exact hbit
  · refine ⟨hbound, _, hsocket, ?_⟩
    have hgroup : ¬ ∃ gid, setting.lookup = .present gid ∧ gid ∈ who.gids := by
      rw [hlookup]
      rintro ⟨_, ⟨⟩, _⟩
    by_cases hroot : who.uid = 0
    · simp [hroot, Credentials.may_root hroot]
    by_cases huid : who.uid = setting.uid
    · rw [Credentials.may_owner hroot huid]
      have hbit : Nat.testBit 0o600 (6 + write) = true := by decide
      exact ⟨fun _ ↦ .inr (.inl huid), fun _ ↦ hbit⟩
    simp only [hroot, huid, hgroup, or_self, iff_false]
    by_cases hmem : setting.gid ∈ who.gids
    · rw [Credentials.may_group hroot huid hmem]
      have hbit : ¬ Nat.testBit 0o600 (3 + write) = true := by decide
      exact hbit
    · rw [Credentials.Outside.may ⟨hroot, huid, hmem⟩]
      have hbit : ¬ Nat.testBit 0o600 write = true := by decide
      exact hbit

/-- Who can connect to a daemon that listens and change something: the superuser, and who may search the
directory and is the daemon's user, or has the operator group in the process and in the database.
Assumes: a run of the start that ends listening. -/
theorem changes_policy_iff (database : UserDatabase) (context : RequestContext)
    (stale : Option Inode) {ops : List SocketOp}
    (hlistening : (ops.foldl (step setting) (begin directory stale)).phase = .listening)
    (who : Credentials) :
    (ops.foldl (step setting) (begin directory stale)).connects who = true ∧
        (requestContext setting database context who).peerMayMutate = true ↔
      who.uid = 0 ∨
        (∃ inode, (ops.foldl (step setting) (begin directory stale)).parent = some inode ∧
          who.may inode execute = true) ∧
        (who.uid = setting.uid ∨
          (∃ gid, setting.lookup = .present gid ∧ gid ∈ who.gids) ∧
            database.Member who.uid operatorGroup) := by
  have hprepared := stateAt_invariant (step setting) (begin directory stale) ops (Prepared setting)
    rfl (fun _ op hprepared ↦ prepared_step hprepared op) ops.length
  have hparent := stateAt_invariant (step setting) (begin directory stale) ops
    (fun start ↦ start.phase = .createParent ∨ start.phase = .failed ∨ start.parent.isSome)
    (.inl rfl) (fun start op hparent ↦ isSome_parent_step op hparent) ops.length
  rw [stateAt_length] at hprepared hparent
  generalize ops.foldl (step setting) (begin directory stale) = start at *
  obtain ⟨inode, hinode⟩ : ∃ inode, start.parent = some inode := by
    rw [hlistening] at hparent
    exact Option.isSome_iff_exists.mp (by simpa using hparent)
  obtain ⟨hbound, socket, hsocket, hwrite⟩ := may_write_iff hprepared hlistening who
  have hconnects : start.connects who = true ↔
      who.may inode execute = true ∧ who.may socket write = true := by
    simp [connects, hbound, hinode, hsocket]
  have hmutate : (requestContext setting database context who).peerMayMutate = true ↔
      who.uid = 0 ∨ who.uid = setting.uid ∨ database.Member who.uid operatorGroup := by
    simp [requestContext, RequestContext.peerMayMutate, RequestContext.uidMayMutate,
      UserDatabase.uidInNamedGroup_iff, or_assoc]
  rw [hconnects, hmutate, hwrite, hinode]
  by_cases hroot : who.uid = 0
  · simp [hroot, Credentials.may_root hroot]
  · simp only [hroot, false_or, Option.some.injEq, exists_eq_left']
    rw [and_assoc, ← or_and_left]

/-- A start whose call for the group of the directory succeeds or fails, and whose other calls
succeed. -/
def startCalls (parentGroup : Bool) : List SocketOp :=
  [true, true, true, parentGroup, true, true, true].map .daemon

/-- An operator of the database can change something, and cannot even connect when the group of the
directory could not be set, which the start ignores. -/
theorem changes_policy_iff_operator :
    let database : UserDatabase :=
      { groupFromName := fun _ ↦ some 990
        userFromUid := fun _ ↦ some ⟨"operator", 1000⟩
        getgrouplist := fun _ _ ↦ some [1000, 990] }
    let setting : SocketSetting := ⟨0, 0, 0o022, database.resolveGroup operatorGroup⟩
    let who : Credentials := ⟨1000, [1000, 990]⟩
    let after := fun parentGroup ↦
      (startCalls parentGroup).foldl (step setting) (begin (some ⟨0, 0, 0o755⟩) none)
    let context := requestContext setting database .ordinary who
    ((after true).connects who = true ∧ context.peerMayMutate = true) ∧
      ¬ ((after false).connects who = true ∧ context.peerMayMutate = true) := by
  intro database setting who after context
  have hlistening : ∀ parentGroup, (after parentGroup).phase = .listening := by
    intro parentGroup
    cases parentGroup <;> rfl
  have hiff := fun parentGroup ↦
    changes_policy_iff database .ordinary none (hlistening parentGroup) who
  constructor
  · refine (hiff true).mpr (.inr ⟨⟨_, rfl, by decide⟩, .inr ⟨⟨990, rfl, by decide⟩, ?_⟩⟩)
    exact ⟨990, ⟨"operator", 1000⟩, rfl, rfl, .inr ⟨by decide, [1000, 990], rfl, by decide⟩⟩
  · intro hchanges
    rcases (hiff false).mp hchanges with hroot | ⟨⟨inode, hinode, hmay⟩, _⟩
    · exact absurd hroot (by decide)
    · obtain rfl : ⟨0, 0, 0o750⟩ = inode := Option.some.inj hinode
      exact absurd hmay (by decide)

end SocketStart

end InterFire
