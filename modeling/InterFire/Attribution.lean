import InterFire.Policy

/-!
# Which process an event is attributed to

The kernel program reports a pid, and the daemon reads five files under that pid some time later. In
between the process may exit, its pid may be given to another one, or it may execute another
program, so `/proc` is a history: which process holds a pid at which moment. The program always
reports the start time zero, for which `attribute` neither asks the cache nor compares start times.

`resolve_reads` says what is read: each field of an identity belongs to whatever process held the
pid at the read of its file. `attributed_fields_of_holders` draws the conclusion for an event: its
executable, command line and uid are those of the connecting process exactly when the holders at the
three reads show the same ones.
-/

set_option autoImplicit false
set_option relaxedAutoImplicit false

namespace InterFire

/-- A process as it is at one moment; `commandName` is the name in the stat record and `cmdline` the
text of the arguments. -/
structure ProcessInstance where
  startTicks : UInt64
  commandName : String
  executable : String
  cmdline : String
  uid : UInt32
  cgroup : String
  deriving DecidableEq, Repr

def ProcessInstance.commandLine (process : ProcessInstance) : List String :=
  Process.parseCommandLine process.cmdline

/-- How the kernel prints the stat and status records of a process at a moment; what else they show
changes from moment to moment. The start time is field 22 of the one, the uid stands in the `Uid`
line of the other. -/
structure Procfs where
  stat : ℕ → UInt32 → ProcessInstance → String
  status : ℕ → UInt32 → ProcessInstance → String
  parseStartTicks_stat : ∀ time pid process,
    Process.parseStartTicks (stat time pid process) = .ok process.startTicks
  parseUid_status : ∀ time pid process,
    Process.parseUid (status time pid process) = .ok process.uid

/-- Which process holds a pid at which moment. -/
abbrev ProcHistory := ℕ → UInt32 → Option ProcessInstance

/-- The read of one file: its moment, and an error other than that the process is gone. -/
structure ProcRead where
  time : ℕ
  failure : Option String
  deriving DecidableEq, Repr

/-- The moment of a connect and the five reads that follow it in their order. -/
structure ReadSchedule where
  connect : ℕ
  stat : ProcRead
  exe : ProcRead
  cmdline : ProcRead
  status : ProcRead
  cgroup : ProcRead
  connect_le_stat : connect ≤ stat.time
  stat_le_exe : stat.time ≤ exe.time
  exe_le_cmdline : exe.time ≤ cmdline.time
  cmdline_le_status : cmdline.time ≤ status.time
  status_le_cgroup : status.time ≤ cgroup.time

/-- Read one file of the process that holds a pid at that moment. -/
def ProcHistory.read (history : ProcHistory) (attempt : ProcRead) (pid : UInt32)
    (file : ProcessInstance → String) : Except String String :=
  match attempt.failure, history attempt.time pid with
  | some error, _ => .error error
  | none, none => .error "No such file or directory (os error 2)"
  | none, some process => .ok (file process)

/-- What the five reads return. -/
def ProcHistory.reads (history : ProcHistory) (procfs : Procfs) (schedule : ReadSchedule)
    (pid : UInt32) : ProcReads where
  stat := history.read schedule.stat pid (procfs.stat schedule.stat.time pid)
  exe := history.read schedule.exe pid ProcessInstance.executable
  cmdline := history.read schedule.cmdline pid ProcessInstance.cmdline
  status := history.read schedule.status pid (procfs.status schedule.status.time pid)
  cgroup := history.read schedule.cgroup pid ProcessInstance.cgroup

/-- The processes that hold a pid at the five reads. -/
structure Holders (history : ProcHistory) (schedule : ReadSchedule) (pid : UInt32) where
  stat : ProcessInstance
  exe : ProcessInstance
  cmdline : ProcessInstance
  status : ProcessInstance
  cgroup : ProcessInstance
  holds_stat : history schedule.stat.time pid = some stat
  holds_exe : history schedule.exe.time pid = some exe
  holds_cmdline : history schedule.cmdline.time pid = some cmdline
  holds_status : history schedule.status.time pid = some status
  holds_cgroup : history schedule.cgroup.time pid = some cgroup

/-- The identity that is put together from the five holders. -/
def Holders.identity {history : ProcHistory} {schedule : ReadSchedule} {pid : UInt32}
    (holders : Holders history schedule pid) : ProcessIdentity where
  pid := pid
  startTicks := holders.stat.startTicks
  executable := holders.exe.executable
  commandLine := holders.cmdline.commandLine
  uid := holders.status.uid
  cgroup := holders.cgroup.cgroup

/-- The identity has the executable, the command line and the uid of a process. -/
def Identifies (identity : ProcessIdentity) (process : ProcessInstance) : Prop :=
  identity.executable = process.executable ∧ identity.commandLine = process.commandLine ∧
    identity.uid = process.uid

/-! ### Reads -/

/-- A read that returns a text found a process. Assumes: it returns one. -/
theorem ProcHistory.of_read_ok {history : ProcHistory} {attempt : ProcRead} {pid : UInt32}
    {file : ProcessInstance → String} {text : String}
    (hread : Process.read (history.read attempt pid file) = .ok text) :
    ∃ process, history attempt.time pid = some process ∧ text = file process := by
  unfold Process.read ProcHistory.read at hread
  cases hfailure : attempt.failure with
  | some error => simp [hfailure, Except.mapError] at hread
  | none =>
    cases hholder : history attempt.time pid with
    | none => simp [hfailure, hholder, Except.mapError] at hread
    | some process =>
      simp only [hfailure, hholder, Except.mapError, Except.ok.injEq] at hread
      exact ⟨process, rfl, hread.symm⟩

/-- What a computation that succeeds has gone through. Assumes: it succeeds. -/
theorem of_bind_ok {ε α β : Type} {first : Except ε α} {rest : α → Except ε β} {result : β}
    (hok : (first >>= rest) = .ok result) :
    ∃ value, first = .ok value ∧ rest value = .ok result := by
  cases first with
  | error error => cases hok
  | ok value => exact ⟨value, rfl, hok⟩

/-- An identity that is resolved without an expected start time is put together from the holders of
the pid at the five reads. Assumes: it is resolved. -/
theorem Process.resolve_reads {procfs : Procfs} {history : ProcHistory} {schedule : ReadSchedule}
    {pid : UInt32} {identity : ProcessIdentity}
    (hok : Process.resolve (history.reads procfs schedule pid) pid 0 = .ok identity) :
    ∃ holders : Holders history schedule pid, identity = holders.identity := by
  unfold Process.resolve at hok
  obtain ⟨statText, hstat, hok⟩ := of_bind_ok hok
  obtain ⟨startTicks, hticks, hok⟩ := of_bind_ok hok
  rw [if_neg (by simp)] at hok
  obtain ⟨executable, hexe, hok⟩ := of_bind_ok hok
  obtain ⟨cmdline, hcmdline, hok⟩ := of_bind_ok hok
  obtain ⟨statusText, hstatus, hok⟩ := of_bind_ok hok
  obtain ⟨uid, huid, hok⟩ := of_bind_ok hok
  obtain ⟨cgroup, hcgroup, hok⟩ := of_bind_ok hok
  obtain ⟨atStat, hatStat, rfl⟩ := ProcHistory.of_read_ok hstat
  obtain ⟨atExe, hatExe, rfl⟩ := ProcHistory.of_read_ok hexe
  obtain ⟨atCmdline, hatCmdline, rfl⟩ := ProcHistory.of_read_ok hcmdline
  obtain ⟨atStatus, hatStatus, rfl⟩ := ProcHistory.of_read_ok hstatus
  obtain ⟨atCgroup, hatCgroup, rfl⟩ := ProcHistory.of_read_ok hcgroup
  rw [procfs.parseStartTicks_stat, Except.ok.injEq] at hticks
  rw [procfs.parseUid_status, Except.ok.injEq] at huid
  obtain rfl := hticks
  obtain rfl := huid
  obtain rfl := Except.ok.inj hok
  exact ⟨⟨atStat, atExe, atCmdline, atStatus, atCgroup, hatStat, hatExe, hatCmdline, hatStatus,
    hatCgroup⟩, rfl⟩

/-! ### Events -/

/-- An event that the kernel program emits carries the start time zero. Assumes: it emits it. -/
theorem processStartTicks_of_tryTcpConnect {argument : Option (List UInt8)} {pidTgid : UInt64}
    {ringHasRoom : Bool} {event : TcpConnectEvent}
    (hevent : tryTcpConnect argument pidTgid ringHasRoom = .ok (some event)) :
    event.processStartTicks = 0 := by
  unfold tryTcpConnect at hevent
  split at hevent
  · cases hevent
  · split_ifs at hevent
    · cases hevent
    · obtain rfl := Option.some.inj (Except.ok.inj hevent)
      rfl
    · cases hevent

/-- An event without a start time is resolved, whatever is cached. Assumes: it is attributed, and it
carries the start time zero. -/
theorem Policy.resolve_of_attributeEvent {reads : ProcReads} {event : TcpConnectEvent}
    {cache after : ProcessCache} {identity : ProcessIdentity} (hticks : event.processStartTicks = 0)
    (hok : attributeEvent reads event cache = .ok (identity, after)) :
    Process.resolve reads event.pid 0 = .ok identity := by
  unfold attributeEvent at hok
  have hfilter : (cache.get event.pid event.processStartTicks).filter
      (fun _ ↦ event.processStartTicks ≠ 0) = none := by
    simp [hticks]
  rw [hfilter, hticks] at hok
  obtain ⟨resolved, hresolve, hok⟩ := of_bind_ok hok
  obtain ⟨rfl, _⟩ := Prod.mk.inj (Except.ok.inj hok)
  exact hresolve

/-- An event without a start time gets the resolved identity. Assumes: it carries the start time
zero, and the pid is resolved. -/
theorem Policy.attributeEvent_of_resolve {reads : ProcReads} {event : TcpConnectEvent}
    {identity : ProcessIdentity} (hticks : event.processStartTicks = 0)
    (hresolve : Process.resolve reads event.pid 0 = .ok identity) (cache : ProcessCache) :
    attributeEvent reads event cache = .ok (identity, cache.insert identity) := by
  unfold attributeEvent
  have hfilter : (cache.get event.pid event.processStartTicks).filter
      (fun _ ↦ event.processStartTicks ≠ 0) = none := by
    simp [hticks]
  rw [hfilter, hticks, hresolve]
  rfl

/-- An identity that is attributed to a connect event is put together from the processes that hold
the pid at the five reads. Its executable, command line and uid are those of the connecting process
exactly when the holders at the three reads show the same ones, as they do when the connecting
process still holds the pid unchanged; and one process that holds the pid at all five reads gives
all the fields. Assumes: the kernel program emits the event, the process holds its pid at the
connect, and the event is attributed. -/
theorem attributed_fields_of_holders (procfs : Procfs) (history : ProcHistory)
    (schedule : ReadSchedule) {argument : Option (List UInt8)} {pidTgid : UInt64}
    {ringHasRoom : Bool} {event : TcpConnectEvent}
    (hevent : tryTcpConnect argument pidTgid ringHasRoom = .ok (some event))
    {connecting : ProcessInstance} (hconnect : history schedule.connect event.pid = some connecting)
    {cache after : ProcessCache} {identity : ProcessIdentity}
    (hok : Policy.attributeEvent (history.reads procfs schedule event.pid) event cache =
      .ok (identity, after)) :
    ∃ holders : Holders history schedule event.pid, identity = holders.identity ∧
      (Identifies identity connecting ↔
        holders.exe.executable = connecting.executable ∧
          holders.cmdline.commandLine = connecting.commandLine ∧
          holders.status.uid = connecting.uid) ∧
      ((∀ time, schedule.connect ≤ time → time ≤ schedule.status.time →
        history time event.pid = history schedule.connect event.pid) →
        Identifies identity connecting) ∧
      ((∀ time, schedule.stat.time ≤ time → time ≤ schedule.cgroup.time →
        history time event.pid = history schedule.stat.time event.pid) →
        identity.startTicks = holders.stat.startTicks ∧ Identifies identity holders.stat ∧
          identity.cgroup = holders.stat.cgroup) := by
  have hresolve := Policy.resolve_of_attributeEvent (processStartTicks_of_tryTcpConnect hevent) hok
  obtain ⟨holders, rfl⟩ := Process.resolve_reads hresolve
  have hstatExe := schedule.stat_le_exe
  have hexeCmdline := schedule.exe_le_cmdline
  have hcmdlineStatus := schedule.cmdline_le_status
  have hstatusCgroup := schedule.status_le_cgroup
  have hconnectStat := schedule.connect_le_stat
  refine ⟨holders, rfl, Iff.rfl, fun hkept ↦ ?_, fun hkept ↦ ?_⟩
  · have hsame : ∀ {time : ℕ} {process : ProcessInstance}, schedule.connect ≤ time →
        time ≤ schedule.status.time → history time event.pid = some process →
        process = connecting := by
      intro time process hfrom hto hholds
      rw [hkept time hfrom hto, hconnect] at hholds
      exact (Option.some.inj hholds).symm
    have hexe := hsame (by omega) (by omega) holders.holds_exe
    have hcmdline := hsame (by omega) (by omega) holders.holds_cmdline
    have hstatus := hsame (by omega) le_rfl holders.holds_status
    exact ⟨congrArg ProcessInstance.executable hexe,
      congrArg ProcessInstance.commandLine hcmdline, congrArg ProcessInstance.uid hstatus⟩
  · have hsame : ∀ {time : ℕ} {process : ProcessInstance}, schedule.stat.time ≤ time →
        time ≤ schedule.cgroup.time → history time event.pid = some process →
        process = holders.stat := by
      intro time process hfrom hto hholds
      rw [hkept time hfrom hto, holders.holds_stat] at hholds
      exact (Option.some.inj hholds).symm
    have hexe := hsame (by omega) (by omega) holders.holds_exe
    have hcmdline := hsame (by omega) (by omega) holders.holds_cmdline
    have hstatus := hsame (by omega) (by omega) holders.holds_status
    have hcgroup := hsame (by omega) le_rfl holders.holds_cgroup
    exact ⟨rfl, ⟨congrArg ProcessInstance.executable hexe,
      congrArg ProcessInstance.commandLine hcmdline, congrArg ProcessInstance.uid hstatus⟩,
      congrArg ProcessInstance.cgroup hcgroup⟩

/-! ### The records that the kernel prints -/

/-- The fields of a stat record between the command name and the start time. -/
def statFields : List Char := " S 1 4242 4242 0 -1 4194560 1203 0 0 0 3 1 0 0 20 0 1 0".toList

/-- The fields of a stat record after the start time. -/
def statRest : List Char := "23212032 1536 18446744073709551615\n".toList

/-- The stat record of a process that sleeps. -/
def statRecord (pid : UInt32) (process : ProcessInstance) : String :=
  String.ofList (Nat.toDigits 10 pid.toNat ++ " (".toList ++ process.commandName.toList ++ ')' ::
    (statFields ++ ' ' :: (Nat.toDigits 10 process.startTicks.toNat ++ ' ' :: statRest)))

theorem length_words_statFields : (Text.words statFields).length = 19 := by decide

/-- The start time of a stat record is read back. -/
theorem parseStartTicks_statRecord (pid : UInt32) (process : ProcessInstance) :
    Process.parseStartTicks (statRecord pid process) = .ok process.startTicks := by
  have hback : ')' ∉ statFields ++ ' ' :: (Nat.toDigits 10 process.startTicks.toNat ++ ' ' ::
      statRest) := by
    have hfields : ')' ∉ statFields := by decide
    have hrest : ')' ∉ statRest := by decide
    have hdigits : ')' ∉ Nat.toDigits 10 process.startTicks.toNat :=
      Text.not_mem_toDigits (by decide) _
    have hspace : ')' ≠ ' ' := by decide
    simp only [List.mem_append, List.mem_cons, not_or]
    exact ⟨hfields, hspace, hdigits, hspace, hrest⟩
  have hwords : Text.words (statFields ++ ' ' :: (Nat.toDigits 10 process.startTicks.toNat ++ ' ' ::
      statRest)) = Text.words statFields ++
        (String.ofList (Nat.toDigits 10 process.startTicks.toNat) :: Text.words statRest) := by
    rw [Text.words_append _ _ (by decide), Text.words_append _ _ (by decide), Text.words_toDigits,
      List.singleton_append]
  have hfield : (Text.words (statFields ++ ' ' :: (Nat.toDigits 10 process.startTicks.toNat ++
      ' ' :: statRest)))[19]? =
        some (String.ofList (Nat.toDigits 10 process.startTicks.toNat)) := by
    rw [hwords, List.getElem?_append_right length_words_statFields.le, length_words_statFields]
    rfl
  simp only [Process.parseStartTicks, statRecord, String.toList_ofList,
    Process.afterLastParen_append _ hback, Option.bind_eq_bind, Option.bind_some, hfield,
    Text.parseUnsigned_toDigits process.startTicks.toNat_lt, UInt64.ofNat_toNat]

/-- The command name as the status record shows it: without newlines. -/
def escapeName (name : List Char) : List Char :=
  name.flatMap fun character ↦
    if character = '\n' then ['\\', 'n']
    else if character = '\\' then ['\\', '\\']
    else [character]

/-- The status record of a process that sleeps. -/
def statusRecord (process : ProcessInstance) : String :=
  String.ofList ("Name:\t".toList ++ escapeName process.commandName.toList ++ '\n' ::
    ("State:\tS (sleeping)".toList ++ '\n' ::
      (("Uid:\t".toList ++ (Nat.toDigits 10 process.uid.toNat ++ '\t' :: "0\t0\t0".toList)) ++
        '\n' :: "Gid:\t0\t0\t0\t0\n".toList)))

theorem not_mem_escapeName (name : List Char) : '\n' ∉ escapeName name := by
  intro hmem
  obtain ⟨character, _, hprinted⟩ := List.mem_flatMap.mp hmem
  split_ifs at hprinted with hnewline hescape
  · simp at hprinted
  · simp at hprinted
  · exact hnewline (List.mem_singleton.mp hprinted).symm

/-- A line without the label of the uid before the one with it. Assumes: it has no newline and does
not start with the label. -/
theorem findSome_uid_cons {line rest : List Char}
    (hline : ∀ character ∈ line, (character == '\n') = false)
    (hother : line.dropPrefix? "Uid:\t".toList = none) :
    ((line ++ '\n' :: rest).splitOnP (· == '\n')).findSome? (·.dropPrefix? "Uid:\t".toList) =
      (rest.splitOnP (· == '\n')).findSome? (·.dropPrefix? "Uid:\t".toList) := by
  rw [List.splitOnP_append_cons (p := (· == '\n')) line rest (beq_self_eq_true '\n'),
    List.splitOnP_eq_singleton hline, List.singleton_append, List.findSome?_cons, hother]

/-- The line with the label of the uid. Assumes: it has no newline. -/
theorem findSome_uid_line {line rest : List Char}
    (hline : ∀ character ∈ "Uid:\t".toList ++ line, (character == '\n') = false) :
    ((("Uid:\t".toList ++ line) ++ '\n' :: rest).splitOnP (· == '\n')).findSome?
      (·.dropPrefix? "Uid:\t".toList) = some line := by
  have hlabel : ("Uid:\t".toList ++ line).dropPrefix? "Uid:\t".toList = some line :=
    List.dropPrefix?_append_of_beq _ (by simp)
  rw [List.splitOnP_append_cons (p := (· == '\n')) _ rest (beq_self_eq_true '\n'),
    List.splitOnP_eq_singleton hline, List.singleton_append, List.findSome?_cons, hlabel]

/-- The uid of a status record is read back. -/
theorem parseUid_statusRecord (process : ProcessInstance) :
    Process.parseUid (statusRecord process) = .ok process.uid := by
  have hname : ∀ character ∈ "Name:\t".toList ++ escapeName process.commandName.toList,
      (character == '\n') = false := by
    have hlabel : ∀ character ∈ "Name:\t".toList, (character == '\n') = false := by simp
    intro character hmem
    rcases List.mem_append.mp hmem with hfixed | hname
    · exact hlabel character hfixed
    · exact beq_eq_false_iff_ne.mpr fun heq ↦ not_mem_escapeName _ (heq ▸ hname)
  have hstate : ∀ character ∈ "State:\tS (sleeping)".toList, (character == '\n') = false := by
    simp
  have huid : ∀ character ∈ "Uid:\t".toList ++ (Nat.toDigits 10 process.uid.toNat ++
      '\t' :: "0\t0\t0".toList), (character == '\n') = false := by
    have hfixed : ∀ character ∈ "Uid:\t".toList ++ '\t' :: "0\t0\t0".toList,
        (character == '\n') = false := by simp
    intro character hmem
    rcases List.mem_append.mp hmem with hlabel | hmem
    · exact hfixed character (List.mem_append_left _ hlabel)
    · rcases List.mem_append.mp hmem with hdigits | hrest
      · refine beq_eq_false_iff_ne.mpr ?_
        rintro rfl
        exact Text.not_mem_toDigits (by decide) _ hdigits
      · exact hfixed character (List.mem_append_right _ hrest)
  have hwords : (Text.words (Nat.toDigits 10 process.uid.toNat ++ '\t' :: "0\t0\t0".toList)).head? =
      some (String.ofList (Nat.toDigits 10 process.uid.toNat)) := by
    rw [Text.words_append _ _ (by decide), Text.words_toDigits]
    rfl
  have hother : ("Name:\t".toList ++ escapeName process.commandName.toList).dropPrefix?
      "Uid:\t".toList = none := by
    have hlabel : "Name:\t".toList = 'N' :: "ame:\t".toList := by decide
    have huid : "Uid:\t".toList = 'U' :: "id:\t".toList := by decide
    rw [hlabel, huid]
    rfl
  have htext : (statusRecord process).toList = _ := String.toList_ofList
  have hline : ((statusRecord process).toList.splitOnP (· == '\n')).findSome?
      (·.dropPrefix? "Uid:\t".toList) =
      some (Nat.toDigits 10 process.uid.toNat ++ '\t' :: "0\t0\t0".toList) := by
    rw [htext, findSome_uid_cons hname hother, findSome_uid_cons hstate (by decide),
      findSome_uid_line huid]
  unfold Process.parseUid
  rw [hline]
  simp only [Option.bind_eq_bind, Option.bind_some, hwords, String.toList_ofList,
    Text.parseUnsigned_toDigits process.uid.toNat_lt, UInt32.ofNat_toNat]

/-- The two records of a process that sleeps. -/
def sleepingProcfs : Procfs where
  stat _ := statRecord
  status _ _ := statusRecord
  parseStartTicks_stat _ := parseStartTicks_statRecord
  parseUid_status _ _ := parseUid_statusRecord

/-! ### A pid that is used again -/

/-- A user's curl. -/
def curlProcess : ProcessInstance :=
  ⟨5000, "curl", "/usr/bin/curl", "curl\x00https://example.net\x00", 1000, "0::/user.slice\n"⟩

/-- A backup of the system. -/
def backupProcess : ProcessInstance :=
  ⟨5003, "backup", "/usr/sbin/backup", "backup\x00", 0, "0::/system.slice\n"⟩

/-- Curl has the pid 7 up to a moment, the backup from then on. -/
def reusedAfter (last : ℕ) : ProcHistory := fun time pid ↦
  if pid ≠ 7 then none else if time ≤ last then some curlProcess else some backupProcess

/-- A connect at the moment 0 and a read at each of the next five. -/
def eventually : ReadSchedule :=
  { connect := 0, stat := ⟨1, none⟩, exe := ⟨2, none⟩, cmdline := ⟨3, none⟩, status := ⟨4, none⟩,
    cgroup := ⟨5, none⟩, connect_le_stat := by decide, stat_le_exe := by decide,
    exe_le_cmdline := by decide, cmdline_le_status := by decide, status_le_cgroup := by decide }

/-- The event of a connect by the process 7. -/
def connectEvent : TcpConnectEvent :=
  { pid := 7, processStartTicks := 0,
    destinationIpv4 := Octets.fromBeBytes ⟨203, 0, 113, 42⟩, destinationPort := 443, reserved := 0 }

theorem tryTcpConnect_connectEvent :
    tryTcpConnect (some (sockaddrMemory ⟨203, 0, 113, 42⟩ 443)) 30064771079 true =
      .ok (some connectEvent) :=
  tryTcpConnect_sockaddr ⟨203, 0, 113, 42⟩ 443 30064771079

/-- Curl connects and exits. When the backup gets the pid before the first read, the connection is
attributed to the backup; when it gets it between the reads, to a curl of the uid 0. -/
theorem reused_pid_misattributed :
    tryTcpConnect (some (sockaddrMemory ⟨203, 0, 113, 42⟩ 443)) 30064771079 true =
        .ok (some connectEvent) ∧
      (∀ cache, ∃ identity after, reusedAfter 0 0 7 = some curlProcess ∧
        Policy.attributeEvent ((reusedAfter 0).reads sleepingProcfs eventually 7) connectEvent
          cache = .ok (identity, after) ∧
        identity.executable = "/usr/sbin/backup" ∧ ¬ Identifies identity curlProcess) ∧
      ∀ cache, ∃ identity after, reusedAfter 2 0 7 = some curlProcess ∧
        Policy.attributeEvent ((reusedAfter 2).reads sleepingProcfs eventually 7) connectEvent
          cache = .ok (identity, after) ∧
        identity.executable = "/usr/bin/curl" ∧ identity.uid = 0 ∧
        ¬ Identifies identity curlProcess := by
  refine ⟨tryTcpConnect_connectEvent, fun cache ↦ ?_, fun cache ↦ ?_⟩
  · have hresolve : Process.resolve ((reusedAfter 0).reads sleepingProcfs eventually 7) 7 0 =
        .ok ⟨7, 5003, "/usr/sbin/backup", ["backup"], 0, "0::/system.slice\n"⟩ := by decide
    refine ⟨_, _, rfl, @Policy.attributeEvent_of_resolve _ connectEvent _ rfl hresolve cache, rfl,
      ?_⟩
    rintro ⟨hexecutable, _⟩
    exact absurd hexecutable (by decide)
  · have hresolve : Process.resolve ((reusedAfter 2).reads sleepingProcfs eventually 7) 7 0 =
        .ok ⟨7, 5000, "/usr/bin/curl", ["backup"], 0, "0::/system.slice\n"⟩ := by decide
    refine ⟨_, _, rfl, @Policy.attributeEvent_of_resolve _ connectEvent _ rfl hresolve cache, rfl,
      rfl, ?_⟩
    rintro ⟨_, _, huid⟩
    exact absurd huid (by decide)

/-- A curl that keeps its pid through the reads is attributed as itself. -/
theorem attributed_fields_curl :
    ∃ identity after, Policy.attributeEvent ((reusedAfter 9).reads sleepingProcfs eventually 7)
        connectEvent (ProcessCache.new 1024 (by decide)) = .ok (identity, after) ∧
      Identifies identity curlProcess := by
  have hresolve : Process.resolve ((reusedAfter 9).reads sleepingProcfs eventually 7) 7 0 =
      .ok ⟨7, 5000, "/usr/bin/curl", ["curl", "https://example.net"], 1000,
        "0::/user.slice\n"⟩ := by decide
  have hok := @Policy.attributeEvent_of_resolve _ connectEvent _ rfl hresolve
    (ProcessCache.new 1024 (by decide))
  obtain ⟨holders, _, _, hkept, _⟩ := attributed_fields_of_holders sleepingProcfs (reusedAfter 9)
    eventually tryTcpConnect_connectEvent (by rfl : reusedAfter 9 0 7 = some curlProcess) hok
  refine ⟨_, _, hok, hkept fun time _ hto ↦ ?_⟩
  have hbefore : time ≤ 9 := hto.trans (by decide)
  simp [reusedAfter, hbefore, connectEvent, eventually]

end InterFire
