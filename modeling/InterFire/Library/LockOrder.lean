import Mathlib.Logic.Function.Basic
import Mathlib.Logic.Relation
import Mathlib.Order.Basic

/-!
# Lock programs, wait-for cycles and lock order

A thread is a list of acquire and release steps that it still has to make, with the locks it holds.
A `System` is a family of threads; a step lets one thread make its next step, and an acquisition
needs a lock that no thread holds. Thread `i` waits for thread `j` when the next step of `i`
acquires a lock that `j` holds; a state is `Deadlocked` when some thread waits for itself through a
chain of threads.

`not_deadlocked_of_ordered` is the lock-order rule: if there is a rank such that every program
acquires only locks of greater rank than the ones it holds, no reachable state is deadlocked.
`deadlock_of_inversion` is the converse for two threads: if each takes a lock and then one that the
other takes before, some interleaving deadlocks.
-/

set_option autoImplicit false
set_option relaxedAutoImplicit false

namespace LockOrder

universe u v w

/-- One step of a lock program. -/
inductive Action (L : Type u)
  | acquire (lock : L)
  | release (lock : L)
  deriving DecidableEq, Repr

/-- The locks a thread holds and the steps it still has to make. -/
structure Thread (L : Type u) where
  held : List L
  remaining : List (Action L)

/-- A family of threads. -/
abbrev System (ι : Type v) (L : Type u) : Type (max u v) := ι → Thread L

variable {ι : Type v} {L : Type u} [DecidableEq L] {ρ : Type w} [Preorder ρ]

section Programs

/-- The locks held after a list of steps. -/
def heldAfter : List L → List (Action L) → List L
  | held, [] => held
  | held, .acquire lock :: rest => heldAfter (lock :: held) rest
  | held, .release lock :: rest => heldAfter (held.erase lock) rest

/-- A program that takes a list of locks one inside the other and gives them back. -/
def nested (locks : List L) : List (Action L) :=
  locks.map .acquire ++ locks.reverse.map .release

/-- Every acquisition is of a lock of greater rank than the locks held at that point. -/
def Ordered (rank : L → ρ) : List L → List (Action L) → Prop
  | _, [] => True
  | held, .acquire lock :: rest =>
    (∀ other ∈ held, rank other < rank lock) ∧ Ordered rank (lock :: held) rest
  | held, .release lock :: rest => Ordered rank (held.erase lock) rest

instance decidableOrdered [DecidableLT ρ] (rank : L → ρ) :
    (held : List L) → (actions : List (Action L)) → Decidable (Ordered rank held actions)
  | _, [] => .isTrue trivial
  | held, .acquire lock :: rest =>
    @instDecidableAnd _ _ (List.decidableBAll _ held) (decidableOrdered rank (lock :: held) rest)
  | held, .release lock :: rest => decidableOrdered rank (held.erase lock) rest

/-- Programs in sequence. -/
theorem ordered_append (rank : L → ρ) (held : List L) (first second : List (Action L)) :
    Ordered rank held (first ++ second) ↔
      Ordered rank held first ∧ Ordered rank (heldAfter held first) second := by
  induction first generalizing held with
  | nil => simp [Ordered, heldAfter]
  | cons action rest ih =>
    cases action with
    | acquire lock => simp only [List.cons_append, Ordered, heldAfter, ih, and_assoc]
    | release lock => simp only [List.cons_append, Ordered, heldAfter, ih]

/-- A sequence of programs is ordered when each of them is ordered and gives back what it takes.
Assumes: exactly that. -/
theorem ordered_flatten {rank : L → ρ} {programs : List (List (Action L))}
    (hprograms : ∀ program ∈ programs, Ordered rank [] program ∧ heldAfter [] program = []) :
    Ordered rank [] programs.flatten := by
  induction programs with
  | nil => exact trivial
  | cons first rest ih =>
    obtain ⟨hordered, hbalanced⟩ := hprograms first List.mem_cons_self
    rw [List.flatten_cons, ordered_append, hbalanced]
    exact ⟨hordered, ih fun program hmem ↦ hprograms program (List.mem_cons_of_mem first hmem)⟩

end Programs

section Waiting

/-- The next step of the first thread acquires a lock that the second one holds. -/
def WaitsFor (system : System ι L) (first second : ι) : Prop :=
  ∃ lock rest, (system first).remaining = .acquire lock :: rest ∧ lock ∈ (system second).held

/-- Some thread waits for itself through a chain of threads. -/
def Deadlocked (system : System ι L) : Prop :=
  ∃ thread, Relation.TransGen (WaitsFor system) thread thread

/-- Every thread has an ordered program left. -/
def AllOrdered (rank : L → ρ) (system : System ι L) : Prop :=
  ∀ thread, Ordered rank (system thread).held (system thread).remaining

/-- Along a chain of waiting threads the rank of the wanted lock grows. Assumes: the programs are
ordered, and the last thread of the chain wants a lock. -/
theorem rank_lt_of_waits {rank : L → ρ} {system : System ι L} (hordered : AllOrdered rank system)
    {first last : ι} (hchain : Relation.TransGen (WaitsFor system) first last) {wanted : L}
    {rest : List (Action L)} (hlast : (system last).remaining = .acquire wanted :: rest) :
    ∃ lock tail, (system first).remaining = .acquire lock :: tail ∧ rank lock < rank wanted := by
  have hedge : ∀ {waiter holder : ι} {lock : L} {tail : List (Action L)},
      WaitsFor system waiter holder → (system holder).remaining = .acquire lock :: tail →
      ∃ other front, (system waiter).remaining = .acquire other :: front ∧
        rank other < rank lock := by
    rintro waiter holder lock tail ⟨other, front, hwaiter, hheld⟩ hholder
    have hprogram := hordered holder
    rw [hholder] at hprogram
    exact ⟨other, front, hwaiter, hprogram.1 other hheld⟩
  induction hchain using Relation.TransGen.head_induction_on with
  | single hwaits => exact hedge hwaits hlast
  | head hwaits _ ih =>
    obtain ⟨lock, tail, hnext, hlt⟩ := ih
    obtain ⟨other, front, hother, hless⟩ := hedge hwaits hnext
    exact ⟨other, front, hother, hless.trans hlt⟩

end Waiting

section Steps

variable [DecidableEq ι]

/-- One thread makes its next step. -/
inductive Step : System ι L → System ι L → Prop
  | acquire {system : System ι L} (thread : ι) {lock : L} {rest : List (Action L)}
    (hnext : (system thread).remaining = .acquire lock :: rest)
    (hfree : ∀ other, lock ∉ (system other).held) :
    Step system (Function.update system thread ⟨lock :: (system thread).held, rest⟩)
  | release {system : System ι L} (thread : ι) {lock : L} {rest : List (Action L)}
    (hnext : (system thread).remaining = .release lock :: rest) :
    Step system (Function.update system thread ⟨(system thread).held.erase lock, rest⟩)

/-- Every thread is before its first step. -/
def start (programs : ι → List (Action L)) : System ι L := fun thread ↦ ⟨[], programs thread⟩

/-- A state that some interleaving of the programs reaches. -/
def Reachable (programs : ι → List (Action L)) (system : System ι L) : Prop :=
  Relation.ReflTransGen Step (start programs) system

/-! ### The lock-order rule -/

/-- A step keeps the remaining programs ordered. Assumes: they are ordered before it. -/
theorem allOrdered_step {rank : L → ρ} {system after : System ι L} (hstep : Step system after)
    (hordered : AllOrdered rank system) : AllOrdered rank after := by
  intro thread
  cases hstep with
  | acquire mover hnext hfree =>
    by_cases hmover : thread = mover
    · subst hmover
      have hbefore := hordered thread
      rw [hnext] at hbefore
      simpa only [Function.update_self] using hbefore.2
    · simpa only [Function.update_of_ne hmover] using hordered thread
  | release mover hnext =>
    by_cases hmover : thread = mover
    · subst hmover
      have hbefore := hordered thread
      rw [hnext] at hbefore
      simpa only [Function.update_self, Ordered] using hbefore
    · simpa only [Function.update_of_ne hmover] using hordered thread

/-- The lock-order rule. Assumes: every program is ordered under one rank. -/
theorem not_deadlocked_of_ordered {rank : L → ρ} {programs : ι → List (Action L)}
    (hordered : ∀ thread, Ordered rank [] (programs thread)) {system : System ι L}
    (hreachable : Reachable programs system) : ¬ Deadlocked system := by
  have hinvariant : AllOrdered rank system := by
    induction hreachable with
    | refl => exact hordered
    | tail _ hstep ih => exact allOrdered_step hstep ih
  rintro ⟨thread, hcycle⟩
  obtain ⟨second, ⟨lock, rest, hnext, _⟩, _⟩ := Relation.TransGen.head'_iff.mp hcycle
  obtain ⟨other, tail, hother, hlt⟩ := rank_lt_of_waits hinvariant hcycle hnext
  rw [hnext] at hother
  obtain rfl := Action.acquire.inj (List.cons.inj hother).1
  exact lt_irrefl _ hlt

/-! ### Running one thread ahead -/

/-- A thread can make its next steps while the locks they take are free. Assumes: the thread still
has these acquisitions to make, the locks are distinct, and nobody holds any of them. -/
theorem steps_advance (system : System ι L) (thread : ι) {locks : List L} (hnodup : locks.Nodup)
    {rest : List (Action L)}
    (hnext : (system thread).remaining = locks.map .acquire ++ rest)
    (hfree : ∀ lock ∈ locks, ∀ other, lock ∉ (system other).held) :
    Relation.ReflTransGen Step system
      (Function.update system thread ⟨locks.reverse ++ (system thread).held, rest⟩) := by
  induction locks generalizing system with
  | nil =>
    have hrest : (system thread).remaining = rest := hnext
    rw [List.reverse_nil, List.nil_append, ← hrest, Function.update_eq_self]
  | cons lock locks ih =>
    have hstep := Step.acquire thread hnext (hfree lock List.mem_cons_self)
    refine Relation.ReflTransGen.head hstep ?_
    have hstillFree : ∀ next ∈ locks, ∀ other, next ∉ (Function.update system thread
        ⟨lock :: (system thread).held, locks.map .acquire ++ rest⟩ other).held := by
      intro next hnextLock other
      have hfreeBefore := hfree next (List.mem_cons_of_mem lock hnextLock) other
      by_cases hother : other = thread
      · subst hother
        have hne : next ≠ lock := fun heq ↦ (List.nodup_cons.mp hnodup).1 (heq ▸ hnextLock)
        simpa [hne] using hfreeBefore
      · simpa only [Function.update_of_ne hother] using hfreeBefore
    have hremaining : (Function.update system thread ⟨lock :: (system thread).held,
        locks.map .acquire ++ rest⟩ thread).remaining = locks.map .acquire ++ rest := by
      rw [Function.update_self]
    have hlater := ih _ (List.nodup_cons.mp hnodup).2 hremaining hstillFree
    simpa using hlater

/-- Two threads that each hold a lock the other one wants. Assumes: the programs start with the
acquisition of distinct locks, no lock is among those of both, and each thread wants next a lock of
the other. -/
theorem deadlock_of_inversion {programs : ι → List (Action L)} {first second : ι}
    (hne : first ≠ second) {firstLocks secondLocks : List L} {firstWants secondWants : L}
    {firstRest secondRest : List (Action L)}
    (hfirst : programs first = firstLocks.map .acquire ++ .acquire firstWants :: firstRest)
    (hsecond : programs second = secondLocks.map .acquire ++ .acquire secondWants :: secondRest)
    (hfirstNodup : firstLocks.Nodup) (hsecondNodup : secondLocks.Nodup)
    (hdisjoint : ∀ lock ∈ secondLocks, lock ∉ firstLocks) (hfirstWants : firstWants ∈ secondLocks)
    (hsecondWants : secondWants ∈ firstLocks) :
    ∃ system, Reachable programs system ∧ Deadlocked system := by
  have hfirstSteps := steps_advance (start programs) first hfirstNodup hfirst (by simp [start])
  have hremaining : (Function.update (start programs) first
      ⟨firstLocks.reverse ++ (start programs first).held, .acquire firstWants :: firstRest⟩
      second).remaining = secondLocks.map .acquire ++ .acquire secondWants :: secondRest := by
    rw [Function.update_of_ne hne.symm]
    exact hsecond
  have hsecondSteps := steps_advance _ second hsecondNodup hremaining (by
    intro lock hlock other
    by_cases hother : other = first
    · subst hother
      simpa [start] using hdisjoint lock hlock
    · simp [Function.update_of_ne hother, start])
  refine ⟨_, hfirstSteps.trans hsecondSteps, first, ?_⟩
  have hwaits : ∀ system : System ι L,
      system first = ⟨firstLocks.reverse, .acquire firstWants :: firstRest⟩ →
      system second = ⟨secondLocks.reverse, .acquire secondWants :: secondRest⟩ →
      Relation.TransGen (WaitsFor system) first first := by
    intro system hfirstAt hsecondAt
    have hforth : WaitsFor system first second := by
      refine ⟨firstWants, firstRest, by rw [hfirstAt], ?_⟩
      rw [hsecondAt]
      exact List.mem_reverse.mpr hfirstWants
    have hback : WaitsFor system second first := by
      refine ⟨secondWants, secondRest, by rw [hsecondAt], ?_⟩
      rw [hfirstAt]
      exact List.mem_reverse.mpr hsecondWants
    exact .tail (.single hforth) hback
  refine hwaits _ ?_ ?_
  · simp [hne, start]
  · simp [hne.symm, start]

end Steps

end LockOrder
