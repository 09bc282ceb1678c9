import InterFire.PromptFrames

/-!
# Clients of the audit stream

`audit_loop` and `subscribe_session` of the terminal client (`crates/interfire-tui/src/ipc.rs`) and of
the desktop client (`ui/src/audit_host.rs`). A session asks for the records after a sequence, and
hands each record that it reads to the application; the sequence of the last one is where the next
session starts. The two clients differ in how they measure and trim a line, and the desktop client
reports a session that ends in an error.

A line is what one read returns. A read timeout of the desktop client drops what has arrived of a
line, and what is left of it is then the line that is read. A stop of that client is the end of a
session and of the list of sessions.

A session that ends in an error leaves the sequence where it was, whatever it has delivered
(`interrupted_session_repeats_record`). So a record is delivered once exactly when no later session
reads what the server sends it again at or below a record that such a session had read:
`audit_records_delivered_once_iff`. What a session reads of the lines it is sent is `Reads`.
-/

set_option autoImplicit false
set_option relaxedAutoImplicit false

namespace InterFire

structure AuditStreamRecord where
  sequence : UInt64
  message : String
  deriving DecidableEq, Repr

def AuditStreamRecord.parse (frame : List Char) : Except ProtocolError AuditStreamRecord :=
  match Text.splitN ' ' 3 (PromptRow.trimEnd frame) with
  | [] => .error .malformed
  | version :: fields =>
    if version ≠ "v1".toList then
      .error (if version.head? = some 'v' then .unsupportedVersion else .malformed)
    else if fields.head? ≠ some "audit".toList then .error .malformed
    else
      match fields[1]?.map (Text.splitOnce '|') with
      | some (sequence, some message) =>
        match Text.parseUnsigned (2 ^ 64) sequence with
        | some sequence => .ok ⟨UInt64.ofNat sequence, String.ofList message⟩
        | none => .error .malformed
      | _ => .error .malformed

/-- The line that a client keeps of a record. -/
def AuditStreamRecord.logLine (record : AuditStreamRecord) : String :=
  decimal record.sequence.toNat ++ "|" ++ record.message

/-- What a client tells the application. -/
inductive AuditEvent
  | ready
  | record (record : AuditStreamRecord)
  | down (reason : String)
  deriving DecidableEq, Repr

/-- The record of an event. -/
def AuditEvent.record? : AuditEvent → Option AuditStreamRecord
  | .record entry => some entry
  | _ => none

/-- A line of a session: the length that is compared with the limit, its text, and whether the
application still takes events. -/
structure HeardLine where
  bytes : ℕ
  text : List Char
  listening : Bool
  deriving DecidableEq, Repr

/-- What a client makes of a line. -/
inductive LineKind
  | tooLarge
  | ready
  | replaced
  | record (record : AuditStreamRecord)
  | malformed
  deriving DecidableEq, Repr

def HeardLine.kind (line : HeardLine) : LineKind :=
  if maxFrameBytes < line.bytes then .tooLarge
  else if "v1 subscribed ".toList.isPrefixOf line.text then .ready
  else if line.text = "v1 audit-replaced".toList then .replaced
  else
    match AuditStreamRecord.parse line.text with
    | .ok record => .record record
    | .error _ => .malformed

/-- The lines of a session after `last`, with the error of the read after them, if it fails. -/
def subscribeSession (failure : Option String) :
    UInt64 → List HeardLine → List AuditEvent × Except String UInt64
  | last, [] =>
    match failure with
    | some reason => ([], .error reason)
    | none => ([], .ok last)
  | last, line :: rest =>
    match line.kind with
    | .tooLarge => ([], .error "frame_too_large")
    | .malformed => ([], .error "malformed_audit")
    | .replaced => subscribeSession failure last rest
    | .ready =>
      if line.listening then
        let (events, result) := subscribeSession failure last rest
        (.ready :: events, result)
      else ([], .ok last)
    | .record record =>
      if line.listening then
        let (events, result) := subscribeSession failure record.sequence rest
        (.record record :: events, result)
      else ([], .ok record.sequence)

inductive AuditClient
  | terminal
  | desktop
  deriving DecidableEq, Repr

/-- A session: the connection or the request fails, or lines are read until the stream is closed or a
read fails. Each line comes with whether the application takes an event then. -/
inductive AuditSession
  | refused (reason : String)
  | opened (lines : List (List Char × Bool)) (failure : Option String)
  deriving DecidableEq, Repr

namespace AuditClient

/-- The terminal client reads a line without its end; the desktop client trims it after it has
measured it. -/
def hear : AuditClient → List Char × Bool → HeardLine
  | .terminal, (line, listening) =>
    let text := if line.getLast? = some '\n' then Text.stripReturn line.dropLast else line
    ⟨Text.byteLength text, text, listening⟩
  | .desktop, (line, listening) => ⟨Text.byteLength line, PromptRow.trimEnd line, listening⟩

/-- One session after `since`. -/
def session (client : AuditClient) (since : UInt64) :
    AuditSession → List AuditEvent × Except String UInt64
  | .refused reason => ([], .error reason)
  | .opened lines failure => subscribeSession failure since (lines.map client.hear)

/-- What is told of an error. -/
def report : AuditClient → String → List AuditEvent
  | .terminal, _ => []
  | .desktop, reason => [.down reason]

/-- Where the next session starts. -/
def nextSince (client : AuditClient) (since : UInt64) (session : AuditSession) : UInt64 :=
  match (client.session since session).2 with
  | .ok next => next
  | .error _ => since

/-- What the application is told in a list of sessions. -/
def auditLoop (client : AuditClient) : UInt64 → List AuditSession → List AuditEvent
  | _, [] => []
  | since, session :: rest =>
    match client.session since session with
    | (events, .ok next) => events ++ client.auditLoop next rest
    | (events, .error reason) => events ++ client.report reason ++ client.auditLoop since rest

/-- The records that the application is given. -/
def delivered (client : AuditClient) (sessions : List AuditSession) : List AuditStreamRecord :=
  (client.auditLoop 0 sessions).filterMap AuditEvent.record?

end AuditClient

/-! ### What a session reads -/

/-- The record of a line. -/
def LineKind.record? : LineKind → Option AuditStreamRecord
  | .record entry => some entry
  | _ => none

/-- A session goes on after a line. -/
def HeardLine.goesOn (line : HeardLine) : Bool :=
  match line.kind with
  | .tooLarge => false
  | .malformed => false
  | .replaced => true
  | .ready => line.listening
  | .record _ => line.listening

/-- The records among lines. -/
def records (lines : List HeardLine) : List AuditStreamRecord :=
  lines.filterMap fun line ↦ line.kind.record?

/-- Lines end in an error: at the first one after which the session does not go on, or at the end. -/
def EndsInError (failure : Option String) (lines : List HeardLine) : Prop :=
  match lines.dropWhile HeardLine.goesOn with
  | [] => failure.isSome
  | line :: _ => line.kind = .tooLarge ∨ line.kind = .malformed

instance (failure : Option String) (lines : List HeardLine) : Decidable (EndsInError failure lines) := by
  unfold EndsInError
  split <;> infer_instance

namespace AuditClient

/-- The lines of a session. -/
def heard (client : AuditClient) : AuditSession → List HeardLine
  | .refused _ => []
  | .opened lines _ => lines.map client.hear

/-- The records that the server sends in a session. -/
def sent (client : AuditClient) (session : AuditSession) : List AuditStreamRecord :=
  records (client.heard session)

/-- The records that a session reads before it ends. -/
def taken (client : AuditClient) (session : AuditSession) : List AuditStreamRecord :=
  records ((client.heard session).takeWhile HeardLine.goesOn)

/-- A session ends in an error. -/
def Interrupted (client : AuditClient) : AuditSession → Prop
  | .refused _ => True
  | .opened lines failure => EndsInError failure (lines.map client.hear)

instance (client : AuditClient) (session : AuditSession) : Decidable (client.Interrupted session) :=
  match session with
  | .refused _ => isTrue trivial
  | .opened _ _ => inferInstanceAs (Decidable (EndsInError _ _))

/-- The server sends records in order, after the sequence that it was given, in every session. -/
def Served (client : AuditClient) : UInt64 → List AuditSession → Prop
  | _, [] => True
  | since, session :: rest =>
    (since :: (client.sent session).map AuditStreamRecord.sequence).Pairwise (· < ·) ∧
      client.Served (client.nextSince since session) rest

instance decidableServed (client : AuditClient) :
    (since : UInt64) → (sessions : List AuditSession) → Decidable (client.Served since sessions)
  | _, [] => isTrue trivial
  | since, session :: rest =>
    have := decidableServed client (client.nextSince since session) rest
    inferInstanceAs (Decidable (_ ∧ _))

/-- The server sends a record in a session, and the session reads it: it goes on after every line in
front of it, and the application takes it. -/
def Reads (client : AuditClient) (session : AuditSession) (record : AuditStreamRecord) : Prop :=
  ∃ before line after, client.heard session = before ++ line :: after ∧
    (∀ earlier ∈ before, earlier.goesOn = true) ∧
    line.kind = .record record ∧ line.listening = true

/-- After a session that ended in an error, every record that the server sends in a later session and
that this one reads comes after every record that the earlier one had read. -/
def NotResent (client : AuditClient) (sessions : List AuditSession) : Prop :=
  sessions.Pairwise fun earlier later ↦ client.Interrupted earlier →
    ∀ record other, client.Reads earlier record → client.Reads later other →
      record.sequence < other.sequence

end AuditClient

/-- What `takeWhile` keeps stands in the list behind nothing but what it keeps. -/
theorem mem_takeWhile_iff {α : Type*} {keep : α → Bool} {entry : α} {entries : List α} :
    entry ∈ entries.takeWhile keep ↔ ∃ before after, entries = before ++ entry :: after ∧
      (∀ earlier ∈ before, keep earlier = true) ∧ keep entry = true := by
  constructor
  · intro hmem
    obtain ⟨before, after, hsplit⟩ := List.append_of_mem hmem
    refine ⟨before, after ++ entries.dropWhile keep, ?_, fun earlier hearlier ↦ ?_,
      List.mem_takeWhile_imp hmem⟩
    · rw [← List.cons_append, ← List.append_assoc, ← hsplit, List.takeWhile_append_dropWhile]
    · have htaken : earlier ∈ entries.takeWhile keep := hsplit ▸ List.mem_append_left _ hearlier
      exact List.mem_takeWhile_imp htaken
  · rintro ⟨before, after, rfl, hbefore, hentry⟩
    rw [List.takeWhile_append_of_pos hbefore, List.takeWhile_cons_of_pos hentry]
    exact List.mem_append_right _ List.mem_cons_self

/-- The application takes a record after which the session goes on. Assumes: the line is a record, and
the session goes on. -/
theorem HeardLine.goesOn_of_record? {line : HeardLine} {record : AuditStreamRecord}
    (hrecord : line.kind.record? = some record) (hgoesOn : line.goesOn = true) :
    line.kind = .record record ∧ line.listening = true := by
  rw [HeardLine.goesOn] at hgoesOn
  cases hkind : line.kind with
  | record entry =>
    rw [hkind] at hrecord hgoesOn
    rw [Option.some.inj hrecord]
    exact ⟨rfl, hgoesOn⟩
  | _ =>
    rw [hkind] at hrecord
    cases hrecord

theorem records_cons (line : HeardLine) (rest : List HeardLine) :
    records (line :: rest) = line.kind.record?.toList ++ records rest := by
  rw [records, List.filterMap_cons]
  cases line.kind.record? <;> rfl

theorem records_takeWhile_sublist (lines : List HeardLine) :
    (records (lines.takeWhile HeardLine.goesOn)).Sublist (records lines) :=
  (List.takeWhile_prefix _).sublist.filterMap _

/-- The events of a session carry the records that it reads before it ends. -/
theorem records_subscribeSession (failure : Option String) (last : UInt64)
    (lines : List HeardLine) :
    (subscribeSession failure last lines).1.filterMap AuditEvent.record? =
      records (lines.takeWhile HeardLine.goesOn) := by
  induction lines generalizing last with
  | nil => cases failure <;> rfl
  | cons line rest ih =>
    rw [subscribeSession, List.takeWhile_cons, HeardLine.goesOn]
    cases hkind : line.kind with
    | tooLarge | malformed => rfl
    | replaced =>
      simp only [if_true]
      rw [ih, records_cons, hkind]
      rfl
    | ready =>
      cases hlistening : line.listening with
      | false => rfl
      | true =>
        simp only [if_true]
        rw [records_cons, hkind]
        exact ih last
    | record entry =>
      cases hlistening : line.listening with
      | false => rfl
      | true =>
        simp only [if_true]
        rw [records_cons, hkind]
        exact congrArg (entry :: ·) (ih entry.sequence)

/-- A session that does not end in an error returns a sequence, at least the one it started after and
those of the records that it has read. Assumes: the records come in order, after the first
sequence. -/
theorem subscribeSession_ok {failure : Option String} {last : UInt64} {lines : List HeardLine}
    (hends : ¬ EndsInError failure lines)
    (horder : (last :: (records lines).map AuditStreamRecord.sequence).Pairwise (· < ·)) :
    ∃ next, (subscribeSession failure last lines).2 = .ok next ∧ last ≤ next ∧
      ∀ record ∈ records (lines.takeWhile HeardLine.goesOn), record.sequence ≤ next := by
  induction lines generalizing last with
  | nil =>
    cases failure with
    | some reason => exact absurd rfl hends
    | none => exact ⟨last, rfl, UInt64.le_refl last, nofun⟩
  | cons line rest ih =>
    rw [EndsInError, List.dropWhile_cons] at hends
    rw [records_cons] at horder
    rw [subscribeSession, List.takeWhile_cons]
    rw [HeardLine.goesOn] at hends ⊢
    cases hkind : line.kind with
    | tooLarge => simp [hkind] at hends
    | malformed => simp [hkind] at hends
    | replaced =>
      simp only [hkind, if_true] at hends ⊢
      rw [hkind] at horder
      rw [records_cons, hkind]
      exact ih hends horder
    | ready =>
      rw [hkind] at horder
      cases hlistening : line.listening with
      | false => exact ⟨last, rfl, UInt64.le_refl last, nofun⟩
      | true =>
        simp only [hkind, hlistening, if_true] at hends ⊢
        rw [records_cons, hkind]
        exact ih hends horder
    | record entry =>
      rw [hkind] at horder
      obtain ⟨hlater, hrest⟩ := List.pairwise_cons.mp horder
      have hfirst : last ≤ entry.sequence := UInt64.le_of_lt (hlater _ List.mem_cons_self)
      cases hlistening : line.listening with
      | false => exact ⟨entry.sequence, rfl, hfirst, nofun⟩
      | true =>
        simp only [hkind, hlistening, if_true] at hends ⊢
        obtain ⟨next, hnext, hle, htaken⟩ := ih hends hrest
        refine ⟨next, hnext, UInt64.le_trans hfirst hle, fun record hrecord ↦ ?_⟩
        rw [records_cons, hkind] at hrecord
        rcases List.mem_cons.mp hrecord with rfl | hrecord
        · exact hle
        · exact htaken record hrecord

/-- A session that ends in an error returns none. -/
theorem subscribeSession_error {failure : Option String} {lines : List HeardLine}
    (hends : EndsInError failure lines) (last : UInt64) :
    ∃ reason, (subscribeSession failure last lines).2 = .error reason := by
  induction lines generalizing last with
  | nil =>
    cases failure with
    | some reason => exact ⟨reason, rfl⟩
    | none => exact absurd hends (by decide)
  | cons line rest ih =>
    rw [EndsInError, List.dropWhile_cons] at hends
    rw [subscribeSession]
    rw [HeardLine.goesOn] at hends
    cases hkind : line.kind with
    | tooLarge => exact ⟨_, rfl⟩
    | malformed => exact ⟨_, rfl⟩
    | replaced =>
      simp only [hkind, if_true] at hends
      exact ih hends last
    | ready =>
      cases hlistening : line.listening with
      | false => simp [hkind, hlistening] at hends
      | true =>
        simp only [hkind, hlistening, if_true] at hends
        exact ih hends last
    | record entry =>
      cases hlistening : line.listening with
      | false => simp [hkind, hlistening] at hends
      | true =>
        simp only [hkind, hlistening, if_true] at hends
        exact ih hends entry.sequence

/-! ### Sessions one after the other -/

namespace AuditClient

variable (client : AuditClient)

theorem records_session (since : UInt64) (session : AuditSession) :
    (client.session since session).1.filterMap AuditEvent.record? = client.taken session := by
  cases session with
  | refused reason => rfl
  | opened lines failure => exact records_subscribeSession failure since (lines.map client.hear)

/-- The application is given what the sessions read, wherever they start. -/
theorem records_auditLoop (since : UInt64) (sessions : List AuditSession) :
    (client.auditLoop since sessions).filterMap AuditEvent.record? =
      sessions.flatMap client.taken := by
  induction sessions generalizing since with
  | nil => rfl
  | cons session rest ih =>
    have hsession := client.records_session since session
    rw [auditLoop, List.flatMap_cons]
    split
    · next events next hresult =>
      rw [hresult] at hsession
      rw [List.filterMap_append, hsession, ih]
    · next events reason hresult =>
      rw [hresult] at hsession
      have hreport : (client.report reason).filterMap AuditEvent.record? = [] := by
        cases client <;> rfl
      rw [List.filterMap_append, List.filterMap_append, hsession, hreport, List.append_nil, ih]

variable {client}

/-- The next session starts no earlier, and after what this one has read unless it ended in an error.
Assumes: the records of the session come in order, after where it started. -/
theorem le_nextSince {since : UInt64} {session : AuditSession}
    (horder : (since :: (client.sent session).map AuditStreamRecord.sequence).Pairwise (· < ·)) :
    since ≤ client.nextSince since session ∧
      (¬ client.Interrupted session → ∀ record ∈ client.taken session,
        record.sequence ≤ client.nextSince since session) := by
  cases session with
  | refused reason => exact ⟨UInt64.le_refl since, fun hfine ↦ absurd trivial hfine⟩
  | opened lines failure =>
    rw [nextSince, AuditClient.session]
    by_cases hends : EndsInError failure (lines.map client.hear)
    · obtain ⟨reason, hresult⟩ := subscribeSession_error hends since
      rw [hresult]
      exact ⟨UInt64.le_refl since, fun hfine ↦ absurd hends hfine⟩
    · obtain ⟨next, hresult, hle, htaken⟩ := subscribeSession_ok hends horder
      rw [hresult]
      exact ⟨hle, fun _ ↦ htaken⟩

/-- What a session takes is what it reads. -/
theorem mem_taken_iff {session : AuditSession} {record : AuditStreamRecord} :
    record ∈ client.taken session ↔ client.Reads session record := by
  rw [taken, records, List.mem_filterMap]
  constructor
  · rintro ⟨line, hline, hrecord⟩
    obtain ⟨before, after, hheard, hbefore, hgoesOn⟩ := mem_takeWhile_iff.mp hline
    obtain ⟨hkind, hlistening⟩ := HeardLine.goesOn_of_record? hrecord hgoesOn
    exact ⟨before, line, after, hheard, hbefore, hkind, hlistening⟩
  · rintro ⟨before, line, after, hheard, hbefore, hkind, hlistening⟩
    have hgoesOn : line.goesOn = true := by rw [HeardLine.goesOn, hkind, hlistening]
    refine ⟨line, mem_takeWhile_iff.mpr ⟨before, after, hheard, hbefore, hgoesOn⟩, ?_⟩
    rw [hkind, LineKind.record?]

theorem taken_sublist_sent (session : AuditSession) :
    (client.taken session).Sublist (client.sent session) :=
  records_takeWhile_sublist _

/-- What is read in a list of sessions comes after where the first one starts. Assumes: the server
sends records in order, after the sequence that it was given. -/
theorem lt_of_mem_taken {since : UInt64} {sessions : List AuditSession}
    (hserved : client.Served since sessions) {session : AuditSession} (hsession : session ∈ sessions)
    {record : AuditStreamRecord} (hrecord : record ∈ client.taken session) :
    since < record.sequence := by
  induction sessions generalizing since with
  | nil => cases hsession
  | cons first rest ih =>
    obtain ⟨horder, hrest⟩ := hserved
    rcases List.mem_cons.mp hsession with rfl | hsession
    · exact (List.pairwise_cons.mp horder).1 _
        (List.mem_map_of_mem ((taken_sublist_sent session).subset hrecord))
    · exact UInt64.lt_of_le_of_lt (le_nextSince horder).1 (ih hrest hsession)

/-- The records that a session reads are in order. Assumes: the server sends records in order. -/
theorem pairwise_taken {since : UInt64} {sessions : List AuditSession}
    (hserved : client.Served since sessions) {session : AuditSession}
    (hsession : session ∈ sessions) :
    (client.taken session).Pairwise fun record other ↦ record.sequence < other.sequence := by
  induction sessions generalizing since with
  | nil => cases hsession
  | cons first rest ih =>
    obtain ⟨horder, hrest⟩ := hserved
    rcases List.mem_cons.mp hsession with rfl | hsession
    · have hsent := List.pairwise_map.mp (List.pairwise_cons.mp horder).2
      exact hsent.sublist (taken_sublist_sent session)
    · exact ih hrest hsession

/-- What later sessions read comes after what earlier ones have read. Assumes: the server sends
records in order, after the sequence that it was given, and nothing again that was read before an
error. -/
theorem pairwise_sessions {since : UInt64} {sessions : List AuditSession}
    (hserved : client.Served since sessions) (hnotResent : client.NotResent sessions) :
    sessions.Pairwise fun earlier later ↦ ∀ record ∈ client.taken earlier,
      ∀ other ∈ client.taken later, record.sequence < other.sequence := by
  induction sessions generalizing since with
  | nil => exact List.Pairwise.nil
  | cons first rest ih =>
    obtain ⟨horder, hrest⟩ := hserved
    obtain ⟨hfirst, hlater⟩ := List.pairwise_cons.mp hnotResent
    refine List.pairwise_cons.mpr ⟨fun session hsession record hrecord other hother ↦ ?_,
      ih hrest hlater⟩
    by_cases hinterrupted : client.Interrupted first
    · exact hfirst session hsession hinterrupted record other (mem_taken_iff.mp hrecord)
        (mem_taken_iff.mp hother)
    · exact UInt64.lt_of_le_of_lt ((le_nextSince horder).2 hinterrupted record hrecord)
        (lt_of_mem_taken hrest hsession hother)

end AuditClient

/-- A client delivers every audit record once, in order, exactly when after a session that ended in an
error every record that the server sends in a later one and that it reads comes after every record
that the earlier one had read. Assumes: the server sends records in order, after the sequence that it
was given. -/
theorem audit_records_delivered_once_iff (client : AuditClient) {sessions : List AuditSession}
    (hserved : client.Served 0 sessions) :
    ((client.delivered sessions).map AuditStreamRecord.sequence).Pairwise (· < ·) ↔
      client.NotResent sessions := by
  rw [AuditClient.delivered, client.records_auditLoop, List.pairwise_map, List.pairwise_flatMap]
  constructor
  · rintro ⟨_, hsessions⟩
    refine List.Pairwise.imp ?_ hsessions
    intro earlier later hordered _ record other hrecord hother
    exact hordered record (AuditClient.mem_taken_iff.mpr hrecord) other
      (AuditClient.mem_taken_iff.mpr hother)
  · intro hnotResent
    exact ⟨fun session hsession ↦ AuditClient.pairwise_taken hserved hsession,
      AuditClient.pairwise_sessions hserved hnotResent⟩

/-- A first session that is closed after two records, and a second one that goes on from there. -/
def resumedSessions : List AuditSession :=
  [.opened [("v1 subscribed ui\n".toList, true), ("v1 audit 1|connect\n".toList, true),
    ("v1 audit 2|connect\n".toList, true)] none,
   .opened [("v1 audit 3|connect\n".toList, true)] (some "reset")]

theorem resumed_records_delivered_once :
    AuditClient.desktop.Served 0 resumedSessions ∧
      ((AuditClient.desktop.delivered resumedSessions).map
        AuditStreamRecord.sequence).Pairwise (· < ·) := by
  have hserved : AuditClient.desktop.Served 0 resumedSessions := by decide
  have hnotResent : AuditClient.desktop.NotResent resumedSessions := by
    refine List.pairwise_pair.mpr fun hinterrupted ↦ ?_
    exact absurd hinterrupted (by decide)
  exact ⟨hserved, (audit_records_delivered_once_iff .desktop hserved).mpr hnotResent⟩

/-- A first session that fails after a record, and a second one in which the server sends the record
again, since it was asked for the same records. -/
def repeatedSessions : List AuditSession :=
  [.opened [("v1 audit 1|connect\n".toList, true)] (some "reset"),
   .opened [("v1 audit 1|connect\n".toList, true)] none]

theorem interrupted_session_repeats_record :
    (AuditClient.terminal.Served 0 repeatedSessions ∧
      ¬ ((AuditClient.terminal.delivered repeatedSessions).map
        AuditStreamRecord.sequence).Pairwise (· < ·)) ∧
    AuditClient.desktop.Served 0 repeatedSessions ∧
      ¬ ((AuditClient.desktop.delivered repeatedSessions).map
        AuditStreamRecord.sequence).Pairwise (· < ·) :=
  ⟨⟨by decide, by decide⟩, by decide, by decide⟩

end InterFire
