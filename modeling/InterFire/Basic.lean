import Mathlib.Data.UInt

/-!
# Clock, counters and locks of the daemon

The vocabulary the daemon's modules share: instants of the monotone clock, counters that saturate,
and a mutex with its poison flag. A mutex is poisoned when a thread panicked while it held the
guard; `Mutex.lock` then has no value, and the callers decide what that means.
-/

set_option autoImplicit false
set_option relaxedAutoImplicit false

namespace InterFire

/-- A reading of the monotone clock, in nanoseconds. -/
abbrev Instant := ℕ

/-- A span of time, in nanoseconds. -/
abbrev Duration := ℕ

/-- A number of seconds as a duration. -/
def Duration.fromSecs (seconds : ℕ) : Duration := seconds * 1000000000

/-- The first instant the platform cannot represent: the seconds are a signed 64-bit number. -/
def Instant.limit : ℕ := 2 ^ 63 * 1000000000

/-- The instant a duration later, or none when the addition panics. -/
def Instant.checkedAdd (now : Instant) (duration : Duration) : Option Instant :=
  if now + duration < Instant.limit then some (now + duration) else none

/-- Addition on unsigned 64-bit numbers that stops at the greatest one. -/
def saturatingAdd (value increment : UInt64) : UInt64 :=
  if value.toNat + increment.toNat < 2 ^ 64 then value + increment else UInt64.ofNat (2 ^ 64 - 1)

/-- The number after another one. Assumes: it is a 64-bit number. -/
theorem toNat_saturatingAdd_one {value : UInt64} (hlt : value.toNat + 1 < 2 ^ 64) :
    (saturatingAdd value 1).toNat = value.toNat + 1 := by
  have hone : (1 : UInt64).toNat = 1 := rfl
  rw [saturatingAdd, hone, if_pos hlt, UInt64.toNat_add, hone, Nat.mod_eq_of_lt hlt]

/-- The number after another one, or the greatest number. -/
theorem toNat_saturatingAdd_one_eq (value : UInt64) :
    (saturatingAdd value 1).toNat = min (value.toNat + 1) (2 ^ 64 - 1) := by
  have hbound := value.toNat_lt
  by_cases hlt : value.toNat + 1 < 2 ^ 64
  · rw [toNat_saturatingAdd_one hlt]
    omega
  · have hone : (1 : UInt64).toNat = 1 := rfl
    have hlast : (UInt64.ofNat (2 ^ 64 - 1)).toNat = 2 ^ 64 - 1 := rfl
    rw [saturatingAdd, hone, if_neg hlt, hlast]
    omega

/-- A value behind a lock. -/
structure Mutex (α : Type) where
  value : α
  poisoned : Bool

namespace Mutex

variable {α : Type}

/-- A fresh lock. -/
def new (value : α) : Mutex α := ⟨value, false⟩

/-- The value under the guard, unless the lock is poisoned. -/
def lock (mutex : Mutex α) : Option α := if mutex.poisoned then none else some mutex.value

/-- Release the guard with a new value. -/
def store (mutex : Mutex α) (value : α) : Mutex α := { mutex with value }

@[simp] theorem lock_new (value : α) : (new value).lock = some value := rfl

@[simp] theorem value_store (mutex : Mutex α) (value : α) : (mutex.store value).value = value := rfl

@[simp] theorem poisoned_store (mutex : Mutex α) (value : α) :
    (mutex.store value).poisoned = mutex.poisoned := rfl

/-- A lock that is not poisoned yields its value. Assumes: no poison. -/
theorem lock_eq {mutex : Mutex α} (hclean : mutex.poisoned = false) :
    mutex.lock = some mutex.value := by
  simp [lock, hclean]

/-- What a lock yields is its value. Assumes: it yields it. -/
theorem value_of_lock {mutex : Mutex α} {value : α} (hlock : mutex.lock = some value) :
    mutex.value = value := by
  unfold lock at hlock
  split_ifs at hlock
  exact Option.some.inj hlock

end Mutex

end InterFire
