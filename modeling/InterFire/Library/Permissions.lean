import Mathlib.Data.Nat.Bitwise

/-!
# File permissions

The mode of a file has three classes of three bits: for the owner, for the group and for everybody
else. Only the first class that somebody belongs to counts (`Credentials.may`), and the superuser is
not asked. A file is made with the bits of a mode that the file mode creation mask leaves (`masked`).
-/

set_option autoImplicit false
set_option relaxedAutoImplicit false

namespace Permissions

/-- The bits of a class. To search a directory is to execute it. -/
def execute : ℕ := 0

def write : ℕ := 1

structure Inode where
  uid : UInt32
  gid : UInt32
  mode : ℕ
  deriving DecidableEq, Repr

/-- The user and the groups of a process. -/
structure Credentials where
  uid : UInt32
  gids : List UInt32
  deriving DecidableEq, Repr

/-- The mode that a mask leaves. -/
def masked (umask mode : ℕ) : ℕ := Nat.ldiff mode umask

theorem testBit_masked (umask mode bit : ℕ) :
    (masked umask mode).testBit bit = (mode.testBit bit && !umask.testBit bit) :=
  Nat.testBit_ldiff mode umask bit

namespace Credentials

def may (who : Credentials) (inode : Inode) (right : ℕ) : Bool :=
  if who.uid = 0 then true
  else if who.uid = inode.uid then inode.mode.testBit (6 + right)
  else if inode.gid ∈ who.gids then inode.mode.testBit (3 + right)
  else inode.mode.testBit right

/-- Everybody else: neither the superuser nor the owner, and not in the group. -/
structure Outside (who : Credentials) (inode : Inode) : Prop where
  root : who.uid ≠ 0
  uid : who.uid ≠ inode.uid
  gid : inode.gid ∉ who.gids

theorem may_root {who : Credentials} (hroot : who.uid = 0) (inode : Inode) (right : ℕ) :
    who.may inode right = true := if_pos hroot

theorem may_owner {who : Credentials} {inode : Inode} (hroot : who.uid ≠ 0)
    (huid : who.uid = inode.uid) (right : ℕ) : who.may inode right = inode.mode.testBit (6 + right) := by
  rw [may, if_neg hroot, if_pos huid]

theorem may_group {who : Credentials} {inode : Inode} (hroot : who.uid ≠ 0)
    (huid : who.uid ≠ inode.uid) (hgid : inode.gid ∈ who.gids) (right : ℕ) :
    who.may inode right = inode.mode.testBit (3 + right) := by
  rw [may, if_neg hroot, if_neg huid, if_pos hgid]

/-- The last class counts for everybody else. -/
theorem Outside.may {who : Credentials} {inode : Inode} (houtside : who.Outside inode)
    (right : ℕ) : who.may inode right = inode.mode.testBit right := by
  rw [Credentials.may, if_neg houtside.root, if_neg houtside.uid, if_neg houtside.gid]

end Credentials

end Permissions
