import InterFire.Library.FiniteMap
import InterFire.Library.Text

/-!
# Process attribution

`crates/interfire-daemon/src/process.rs`. `resolve` reads five files of a process under `/proc`, one
after another, so the model gives it the outcome of each read (`ProcReads`) and nothing says that
the five outcomes belong to one process. `ProcessCache` keeps identities under their pid and start
time.

Paths and command lines are texts as the daemon displays them: the bytes of a path or of an
argument that are not UTF-8 appear as replacement characters.
-/

set_option autoImplicit false
set_option relaxedAutoImplicit false

namespace InterFire

structure ProcessIdentity where
  pid : UInt32
  startTicks : UInt64
  executable : String
  commandLine : List String
  uid : UInt32
  cgroup : String
  deriving DecidableEq, Repr

/-- Why a process could not be attributed. -/
inductive AttributionError
  | io (error : String)
  | malformedStat
  | pidReused (expected actual : UInt64)
  deriving DecidableEq, Repr

/-- The outcomes of the reads of `/proc/<pid>/stat`, `exe`, `cmdline`, `status` and `cgroup`, each
at the moment it was made: the content, or the text of an I/O error. -/
structure ProcReads where
  stat : Except String String
  exe : Except String String
  cmdline : Except String String
  status : Except String String
  cgroup : Except String String

namespace Process

/-- The characters after the last closing parenthesis. -/
def afterLastParen (text : List Char) : Option (List Char) :=
  if ')' ∈ text then some (text.reverse.takeWhile (· ≠ ')')).reverse else none

/-- What follows the last closing parenthesis. Assumes: nothing after it is one. -/
theorem afterLastParen_append (front : List Char) {back : List Char} (hback : ')' ∉ back) :
    afterLastParen (front ++ ')' :: back) = some back := by
  have hall : ∀ character ∈ back.reverse, (decide (character ≠ ')')) = true := by
    intro character hmem
    have hne : character ≠ ')' := fun heq ↦ hback (heq ▸ List.mem_reverse.mp hmem)
    simpa using hne
  have hreverse : (front ++ ')' :: back).reverse = back.reverse ++ ')' :: front.reverse := by simp
  rw [afterLastParen, if_pos (by simp), hreverse, List.takeWhile_append_of_pos hall]
  simp

/-- The start time of a stat record. The command name may contain spaces and parentheses, so the
fields are counted from the final parenthesis: field 22 is the twentieth after it. -/
def parseStartTicks (stat : String) : Except AttributionError UInt64 :=
  match do
    let fields ← afterLastParen stat.toList
    let field ← (Text.words fields)[19]?
    Text.parseUnsigned (2 ^ 64) field.toList
  with
  | some ticks => .ok (UInt64.ofNat ticks)
  | none => .error .malformedStat

/-- The nonempty arguments of a command line, which are separated by null characters. -/
def parseCommandLine (cmdline : String) : List String :=
  ((cmdline.toList.splitOnP (· == '\x00')).filter (· ≠ [])).map String.ofList

/-- The first number of the first status line that starts with the user-id label. -/
def parseUid (status : String) : Except AttributionError UInt32 :=
  match do
    let line ← (status.toList.splitOnP (· == '\n')).findSome? (·.dropPrefix? "Uid:\t".toList)
    let word ← (Text.words line).head?
    Text.parseUnsigned (2 ^ 32) word.toList
  with
  | some uid => .ok (UInt32.ofNat uid)
  | none => .error .malformedStat

/-- The content of a read, or the attribution error of its failure. -/
def read (outcome : Except String String) : Except AttributionError String :=
  outcome.mapError .io

/-- Resolve a pid. A nonzero expected start time that differs from the observed one is a reused
pid; the expected time zero accepts whatever process has the pid now. -/
def resolve (reads : ProcReads) (pid : UInt32) (expectedStartTicks : UInt64) :
    Except AttributionError ProcessIdentity := do
  let stat ← read reads.stat
  let startTicks ← parseStartTicks stat
  if expectedStartTicks ≠ 0 ∧ startTicks ≠ expectedStartTicks then
    throw (.pidReused expectedStartTicks startTicks)
  let executable ← read reads.exe
  let cmdline ← read reads.cmdline
  let status ← read reads.status
  let uid ← parseUid status
  let cgroup ← read reads.cgroup
  return { pid, startTicks, executable, commandLine := parseCommandLine cmdline, uid, cgroup }

end Process

/-- Identities by pid and start time, at most `capacity` of them, oldest evicted first. -/
structure ProcessCache where
  capacity : ℕ
  capacity_pos : 0 < capacity
  entries : FiniteMap (UInt32 × UInt64) ProcessIdentity
  order : List (UInt32 × UInt64)

namespace ProcessCache

/-- The empty cache. -/
def new (capacity : ℕ) (hcapacity : 0 < capacity) : ProcessCache :=
  { capacity, capacity_pos := hcapacity, entries := FiniteMap.empty, order := [] }

/-- The identity cached for a pid and start time. -/
def get (cache : ProcessCache) (pid : UInt32) (startTicks : UInt64) : Option ProcessIdentity :=
  cache.entries.get (pid, startTicks)

/-- Cache an identity that is not cached yet, evicting the oldest one from a full cache. -/
def insert (cache : ProcessCache) (identity : ProcessIdentity) : ProcessCache :=
  let key := (identity.pid, identity.startTicks)
  if (cache.entries.get key).isSome then cache
  else
    let (order, entries) :=
      if cache.entries.len = cache.capacity then
        match cache.order with
        | oldest :: rest => (rest, cache.entries.remove oldest)
        | [] => ([], cache.entries)
      else (cache.order, cache.entries)
    { cache with order := order ++ [key], entries := entries.insert key identity }

/-- The cached identities, oldest first. -/
def list (cache : ProcessCache) : List ProcessIdentity := cache.order.filterMap cache.entries.get

end ProcessCache

end InterFire
