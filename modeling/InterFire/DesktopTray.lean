import InterFire.FrameSize
import InterFire.Library.OnceCell
import InterFire.StatusFrames

/-!
# The tray of the desktop client

A poll of the daemon (`poll_snapshot` of `ui/src/ipc_poll.rs`), the state that the tray shows for it
(`TrayState::from_link` of `ui/src/tray.rs`) and the pictures of the states (`brand_icon` of
`ui/src/tray_host.rs`), which are decoded once and kept.

`protected_iff` says for every state of the daemon what the tray is told after a poll that reads it:
protected only when no block of the machine and of no user is active, whoever is asking. It is told so
without a queue, too, and when the prompts could not be fetched. `tray_icons_stick` says which picture
each state is shown with along a sequence of states: three of the states share the picture of
whichever of them is asked for first. The source tells pictures apart by their addresses; here equal
pictures have one address.
-/

set_option autoImplicit false
set_option relaxedAutoImplicit false

namespace InterFire

namespace Shell

/-! ### The link and its state -/

inductive DaemonLink
  | down (reason : String)
  | up (status : DaemonStatus) (pendingPrompts : ℕ)
  deriving DecidableEq, Repr

inductive TrayState
  | «protected»
  | prompting
  | degraded
  | paused
  | blocked
  | unavailable
  deriving DecidableEq, Repr

def isDegraded (status : DaemonStatus) : Bool :=
  status.observation = "degraded" || status.enforcement = "degraded"

namespace TrayState

def fromLink : DaemonLink → TrayState
  | .down _ => unavailable
  | .up status pendingPrompts =>
    if 0 < pendingPrompts then prompting
    else if status.traffic = "blocked" then blocked
    else if status.enforcement = "paused" then paused
    else if isDegraded status then degraded
    else «protected»

/-- When a link that is up is shown as protected. -/
theorem fromLink_up_eq_protected_iff (status : DaemonStatus) (pendingPrompts : ℕ) :
    fromLink (.up status pendingPrompts) = «protected» ↔
      pendingPrompts = 0 ∧ ¬ status.traffic = "blocked" ∧ ¬ status.enforcement = "paused" ∧
        ¬ isDegraded status = true := by
  unfold fromLink
  dsimp only
  split_ifs with hprompts hblocked hpaused hdegraded
  · exact ⟨nofun, fun hall ↦ absurd hall.1 hprompts.ne'⟩
  · exact ⟨nofun, fun hall ↦ absurd hblocked hall.2.1⟩
  · exact ⟨nofun, fun hall ↦ absurd hpaused hall.2.2.1⟩
  · exact ⟨nofun, fun hall ↦ absurd hdegraded hall.2.2.2⟩
  · exact ⟨fun _ ↦ ⟨by omega, hblocked, hpaused, hdegraded⟩, fun _ ↦ rfl⟩

theorem fromLink_up_ne_unavailable (status : DaemonStatus) (pendingPrompts : ℕ) :
    fromLink (.up status pendingPrompts) ≠ unavailable := by
  unfold fromLink
  dsimp only
  split_ifs <;> exact nofun

def label : TrayState → String
  | «protected» => "protected"
  | prompting => "prompting"
  | degraded => "degraded"
  | paused => "paused"
  | blocked => "blocked"
  | unavailable => "daemon unavailable"

end TrayState

/-! ### A poll -/

/-- The lines that a poll reads, or why it could not read them. -/
structure PollReplies where
  status : Except String (List Char)
  prompts : Except String (List Char)
  rules : Except String (List Char)
  processes : Except String (List Char)
  network : Except String (List Char)
  statsSummary : Except String (List Char)
  stats : StatsKind → Except String (List Char)

structure PollSnapshot where
  link : DaemonLink
  prompts : List PromptRow
  rules : List RuleRow
  processes : List ProcessRow
  network : Option NetworkStatus
  statsSummary : Option StatsSummary
  stats : StatsKind → List StatsRow

/-- What is read of a line, or the error. -/
def fetched {α : Type} (reply : Except String (List Char))
    (parse : List Char → Except ProtocolError α) (malformed : String) : Except String α :=
  reply.bind fun frame ↦ (parse frame).mapError fun _ ↦ malformed

theorem fetched_ok {α : Type} {frame : List Char} {parse : List Char → Except ProtocolError α}
    {value : α} (hparse : parse frame = .ok value) (malformed : String) :
    fetched (.ok frame) parse malformed = .ok value := by
  have hbind : fetched (.ok frame) parse malformed = (parse frame).mapError fun _ ↦ malformed := rfl
  rw [hbind, hparse]
  rfl

namespace PollReplies

def fetchStatus (replies : PollReplies) : Except String DaemonStatus :=
  fetched replies.status DaemonStatus.parse "malformed_status"

def fetchPrompts (replies : PollReplies) : Except String (List PromptRow) :=
  fetched replies.prompts PromptRow.parseFrame "malformed_prompts"

def fetchRules (replies : PollReplies) : Except String (List RuleRow) :=
  fetched replies.rules RuleRow.parseFrame "malformed_rules"

def fetchProcesses (replies : PollReplies) : Except String (List ProcessRow) :=
  fetched replies.processes ProcessRow.parseFrame "malformed_processes"

def fetchNetwork (replies : PollReplies) : Except String NetworkStatus :=
  fetched replies.network NetworkStatus.parse "malformed_network"

def fetchStatsSummary (replies : PollReplies) : Except String StatsSummary :=
  fetched replies.statsSummary StatsSummary.parse "malformed_stats_summary"

def fetchStatsRows (replies : PollReplies) (kind : StatsKind) : Except String (List StatsRow) :=
  fetched (replies.stats kind) (fun frame ↦ StatsRow.parseFrame frame kind.label) "malformed_stats"

end PollReplies

/-- A poll. Without a status it asks for nothing else, and a list that cannot be fetched is an empty
one. -/
def pollSnapshot (replies : PollReplies) : PollSnapshot :=
  match replies.fetchStatus with
  | .ok status =>
    let prompts := replies.fetchPrompts.toOption.getD []
    { link := .up status prompts.length
      prompts
      rules := replies.fetchRules.toOption.getD []
      processes := replies.fetchProcesses.toOption.getD []
      network := replies.fetchNetwork.toOption
      statsSummary := replies.fetchStatsSummary.toOption
      stats := fun kind ↦ (replies.fetchStatsRows kind).toOption.getD [] }
  | .error reason =>
    { link := .down reason
      prompts := []
      rules := []
      processes := []
      network := none
      statsSummary := none
      stats := fun _ ↦ [] }

/-- What a poll asks the daemon for: the status and, when it can read one, the lists. -/
def PollReplies.requests (replies : PollReplies) : List String :=
  match replies.fetchStatus with
  | .ok _ =>
    ["v1 status\n", "v1 prompt-list\n", "v1 rule-list\n", "v1 process-list\n",
      "v1 network-status\n", "v1 stats-summary\n"] ++
      [StatsKind.hosts, .procs, .addrs, .ports, .users].map fun kind ↦ "v1 " ++ kind.label ++ "\n"
  | .error _ => ["v1 status\n"]

/-- The requests of a poll. -/
def pollRequests : List Request :=
  [.status, .promptList, .ruleList, .processList, .networkStatus, .statsSummary, .statsHosts,
    .statsProcs, .statsAddrs, .statsPorts, .statsUsers]

/-- The daemon reads a line of a poll as one of these requests. Assumes: a line of a poll. -/
theorem parse_of_mem_requests {replies : PollReplies} {line : String}
    (hline : line ∈ replies.requests) :
    ∃ request ∈ pollRequests, Request.parse line.toList = .ok request := by
  have hmem : line ∈ ["v1 status\n", "v1 prompt-list\n", "v1 rule-list\n", "v1 process-list\n",
      "v1 network-status\n", "v1 stats-summary\n", "v1 stats-hosts\n", "v1 stats-procs\n",
      "v1 stats-addrs\n", "v1 stats-ports\n", "v1 stats-users\n"] := by
    rw [PollReplies.requests] at hline
    split at hline
    · exact hline
    · exact List.mem_of_mem_take (i := 1) hline
  have hall : ∀ line ∈ ["v1 status\n", "v1 prompt-list\n", "v1 rule-list\n", "v1 process-list\n",
      "v1 network-status\n", "v1 stats-summary\n", "v1 stats-hosts\n", "v1 stats-procs\n",
      "v1 stats-addrs\n", "v1 stats-ports\n", "v1 stats-users\n"],
      ∃ request ∈ pollRequests, Request.parse line.toList = .ok request := by decide
  exact hall line hmem

/-! ### When the tray says protected -/

theorem solid_append {first second : String} (hfirst : Solid first) (hsecond : Solid second) :
    Solid (first ++ second) := by
  intro character hmem
  rw [String.toList_append] at hmem
  rcases List.mem_append.mp hmem with hstart | hend
  · exact hfirst character hstart
  · exact hsecond character hend

theorem solid_asStr (preference : TrafficPreference) : Solid preference.asStr := by
  cases preference <;> decide

theorem solid_label (effective : EffectiveTraffic) : Solid effective.label := by
  cases effective with
  | «open» => decide
  | machine preference =>
    have hmachine : Solid "machine:" := by decide
    exact solid_append hmachine (solid_asStr preference)
  | user uid preference =>
    have huser : Solid "user:" := by decide
    have hcolon : Solid ":" := by decide
    exact solid_append (solid_append (solid_append huser (solid_decimal _)) hcolon)
      (solid_asStr preference)

/-- The body of the status of a daemon. -/
def statusBody (context : RequestContext) (state : ControlState) : StatusBody :=
  { enforcement := state.enforcementLabel
    observation := state.observation
    traffic := state.traffic
    trafficMachine := state.enforcement.machineTraffic.asStr
    trafficUser := (state.enforcement.userPreference (context.peerUid.getD 0)).asStr
    trafficEffective := state.enforcement.trafficEffective (context.peerUid.getD 0)
    ipcVersion
    pid := context.metrics.pid
    rssKib := context.metrics.rssKib
    cpuJiffies := context.metrics.cpuJiffies }

/-- A client reads back the status of a daemon. Assumes: the observation has one of its two labels. -/
theorem parse_status {context : RequestContext} {state : ControlState} {attached : Bool}
    (hobservation : state.observation = observationLabel attached) :
    DaemonStatus.parse (state.status context).encode.toList =
      .ok (.ofBody (statusBody context state)) := by
  have henforcement : Solid state.enforcementLabel := by
    unfold ControlState.enforcementLabel ControlState.bindLabel
    split_ifs
    · decide
    · split <;> decide
  have hobserved : Solid state.observation := by
    rw [hobservation]
    cases attached <;> decide
  have htraffic : Solid state.traffic := by
    unfold ControlState.traffic
    split_ifs <;> decide
  have hsolid : ∀ text ∈ DaemonStatus.texts (statusBody context state), Solid text := by
    simp only [DaemonStatus.texts, List.forall_mem_cons]
    exact ⟨henforcement, hobserved, htraffic, solid_asStr _, solid_asStr _, solid_label _,
      List.forall_mem_nil _⟩
  have hencode : (state.status context).encode.toList =
      keyValueFrame "status" (DaemonStatus.tokens (statusBody context state)) :=
    DaemonStatus.toList_encode (statusBody context state)
  rw [hencode]
  exact DaemonStatus.parse_lineOf hsolid (LineOf.refl _ _)

end Shell

namespace ControlState

/-- Traffic is open when no block of the machine is in memory or stored, and none of a user is. -/
theorem traffic_eq_open_iff (state : ControlState) :
    state.traffic = "open" ↔ state.enforcement.machineTraffic.isBlocked = false ∧
      (TrafficMode.load state.enforcement.files TrafficMode.machineName).isBlocked = false ∧
        state.enforcement.userBlocks = [] := by
  rw [traffic, TrafficMode.anyBlockActive, Enforcement.userBlocks]
  split_ifs with hblocked
  · refine iff_of_false (by decide) ?_
    rintro ⟨hmemory, hstored, husers⟩
    simp [hmemory, hstored, husers] at hblocked
  · refine iff_of_true rfl ?_
    simpa [not_or, List.isEmpty_iff] using hblocked

theorem traffic_eq_blocked_iff (state : ControlState) :
    state.traffic = "blocked" ↔ state.traffic ≠ "open" := by
  unfold ControlState.traffic
  split_ifs <;> decide

theorem enforcementLabel_eq_paused_iff (state : ControlState) :
    state.enforcementLabel = "paused" ↔ state.enforcement.paused = true := by
  unfold enforcementLabel bindLabel
  split_ifs with hpaused
  · simp [hpaused]
  · cases state.enforcement.bindState <;> simp [hpaused]

theorem enforcementLabel_eq_degraded_iff (state : ControlState) :
    state.enforcementLabel = "degraded" ↔
      state.enforcement.paused = false ∧ state.enforcement.bindState = .degraded := by
  unfold enforcementLabel bindLabel
  split_ifs with hpaused
  · simp [hpaused]
  · cases state.enforcement.bindState <;> simp [hpaused]

end ControlState

namespace Shell

/-- When the tray says protected: no prompt was fetched, no block of the machine and of no user is
active, the rules are not paused, the queue is not degraded, and connects are observed. A daemon
without a queue counts as protected, and so does one whose prompts could not be fetched. Assumes: the
poll reads the whole status, and the observation has one of its two labels. -/
theorem protected_iff {context : RequestContext} {state : ControlState} {attached : Bool}
    (hobservation : state.observation = observationLabel attached) {replies : PollReplies}
    (hstatus : replies.status = .ok (state.status context).encode.toList) :
    TrayState.fromLink (pollSnapshot replies).link = .«protected» ↔
      (∀ prompts, replies.fetchPrompts = .ok prompts → prompts = []) ∧
        (state.enforcement.machineTraffic.isBlocked = false ∧
          (TrafficMode.load state.enforcement.files TrafficMode.machineName).isBlocked = false ∧
            state.enforcement.userBlocks = []) ∧
        state.enforcement.paused = false ∧ state.enforcement.bindState ≠ .degraded ∧
        attached = true := by
  have hfetch : replies.fetchStatus = .ok (.ofBody (statusBody context state)) := by
    rw [PollReplies.fetchStatus, hstatus, fetched_ok (parse_status hobservation)]
  have hlink : (pollSnapshot replies).link =
      .up (.ofBody (statusBody context state)) (replies.fetchPrompts.toOption.getD []).length := by
    rw [pollSnapshot, hfetch]
  have hprompts : (replies.fetchPrompts.toOption.getD []).length = 0 ↔
      ∀ prompts, replies.fetchPrompts = .ok prompts → prompts = [] := by
    cases replies.fetchPrompts with
    | error error => simp [Except.toOption]
    | ok prompts => simp [Except.toOption]
  have hobserved : state.observation = "degraded" ↔ attached ≠ true := by
    rw [hobservation]
    cases attached <;> decide
  have hbody : isDegraded (.ofBody (statusBody context state)) = true ↔
      state.observation = "degraded" ∨ state.enforcementLabel = "degraded" := by
    rw [isDegraded, Bool.or_eq_true, decide_eq_true_iff, decide_eq_true_iff]
    exact Iff.rfl
  have htrafficBody : (DaemonStatus.ofBody (statusBody context state)).traffic = state.traffic := rfl
  have henforcementBody : (DaemonStatus.ofBody (statusBody context state)).enforcement =
      state.enforcementLabel := rfl
  rw [← state.traffic_eq_open_iff, hlink, TrayState.fromLink_up_eq_protected_iff, ← hprompts,
    htrafficBody, henforcementBody, hbody, state.traffic_eq_blocked_iff,
    state.enforcementLabel_eq_paused_iff, hobserved, state.enforcementLabel_eq_degraded_iff]
  constructor
  · rintro ⟨hnone, hopen, hactive, hnot⟩
    have hunpaused : state.enforcement.paused = false := by simpa using hactive
    exact ⟨hnone, not_not.mp hopen, hunpaused, fun hbind ↦ hnot (.inr ⟨hunpaused, hbind⟩),
      not_not.mp fun hattached ↦ hnot (.inl hattached)⟩
  · rintro ⟨hnone, hopen, hunpaused, hbind, hattached⟩
    refine ⟨hnone, not_not.mpr hopen, by simp [hunpaused], ?_⟩
    rintro (hattached' | ⟨_, hbind'⟩)
    · exact hattached' hattached
    · exact hbind hbind'

/-- A daemon that has just started and observes connects, without a queue. -/
def observingDaemon : ControlState :=
  { ControlState.startedWith .withDefaults with observation := "attached" }

/-- A poll of it that times out after the status. -/
def statusOnly : PollReplies :=
  { status := .ok (observingDaemon.status .ordinary).encode.toList
    prompts := .error "timed out"
    rules := .error "timed out"
    processes := .error "timed out"
    network := .error "timed out"
    statsSummary := .error "timed out"
    stats := fun _ ↦ .error "timed out" }

/-- The tray says protected, although no packet is queued and the prompts are not known. -/
theorem protected_iff_statusOnly :
    TrayState.fromLink (pollSnapshot statusOnly).link = .«protected» ∧
      observingDaemon.enforcement.bindState = .none := by
  have hobservation : observingDaemon.observation = observationLabel true := rfl
  refine ⟨(protected_iff hobservation rfl).mpr ?_, rfl⟩
  exact ⟨nofun, ⟨rfl, rfl, rfl⟩, rfl, nofun, rfl⟩

/-! ### Pictures -/

/-- The pictures of `brand.rs` that the tray uses. -/
inductive BrandPng
  | app
  | gradient
  | trayDegraded
  | trayPaused
  | trayBlocked
  | trayUnavailable
  deriving DecidableEq, Repr

def TrayState.brandPng : TrayState → BrandPng
  | .«protected» => .app
  | .prompting => .gradient
  | .degraded => .trayDegraded
  | .paused => .trayPaused
  | .blocked => .trayBlocked
  | .unavailable => .trayUnavailable

/-- The cells for decoded pictures. -/
inductive IconSlot
  | «protected»
  | prompting
  | degraded
  | unavailable
  deriving DecidableEq, Repr

/-- The cell of a picture. Three pictures have one of their own. -/
def iconSlot (png : BrandPng) : IconSlot :=
  if png = TrayState.«protected».brandPng then .«protected»
  else if png = TrayState.prompting.brandPng then .prompting
  else if png = TrayState.degraded.brandPng then .degraded
  else .unavailable

/-- The pictures that are shown when the tray asks for those of the states, the cells being empty at
first. -/
def shownIcons (states : List TrayState) : List BrandPng :=
  OnceCell.answers (fun _ : IconSlot ↦ none)
    (states.map fun state ↦ (iconSlot state.brandPng, state.brandPng))

/-- The states that share a cell. -/
def TrayState.shares : TrayState → Bool
  | .paused | .blocked | .unavailable => true
  | _ => false

/-- What the tray shows for a state: the picture of the first one asked for that has its cell. -/
theorem getElem?_shownIcons {states : List TrayState} {index : ℕ} {state : TrayState}
    (hstate : states[index]? = some state) :
    (shownIcons states)[index]? = (states.find? fun other ↦
      iconSlot other.brandPng = iconSlot state.brandPng).map TrayState.brandPng := by
  rw [shownIcons, OnceCell.getElem?_answers, List.getElem?_map, hstate, Option.map_some,
    Option.bind_some, Option.none_or, List.find?_map, Option.map_map]
  rfl

theorem iconSlot_eq_iff_of_shares {state : TrayState} (hshares : state.shares = true)
    (other : TrayState) : iconSlot other.brandPng = iconSlot state.brandPng ↔ other.shares = true := by
  cases state <;> cases hshares <;> cases other <;> decide

theorem iconSlot_eq_iff_of_not_shares {state : TrayState} (hown : state.shares = false)
    (other : TrayState) : iconSlot other.brandPng = iconSlot state.brandPng ↔ other = state := by
  cases state <;> cases hown <;> cases other <;> decide

/-- Protected, prompting and degraded are shown with their own pictures. Paused, blocked and
unavailable are all shown with the picture of whichever of them was asked for first. -/
theorem tray_icons_stick (states : List TrayState) (index : ℕ) :
    (shownIcons states)[index]? = states[index]?.map fun state ↦
      (if state.shares then (states.find? TrayState.shares).getD state else state).brandPng := by
  cases hstate : states[index]? with
  | none =>
    rw [shownIcons, OnceCell.getElem?_answers, List.getElem?_map, hstate]
    rfl
  | some state =>
    have hmem : state ∈ states := List.mem_of_getElem? hstate
    rw [getElem?_shownIcons hstate, Option.map_some]
    cases hshares : state.shares with
    | true =>
      simp only [iconSlot_eq_iff_of_shares hshares, Bool.decide_eq_true, if_true]
      cases hfirst : states.find? TrayState.shares with
      | none => exact absurd hshares (by simpa using List.find?_eq_none.mp hfirst state hmem)
      | some first => rfl
    | false =>
      simp only [iconSlot_eq_iff_of_not_shares hshares, Bool.false_eq_true, if_false]
      cases hfirst : states.find? fun other ↦ other = state with
      | none => exact absurd (decide_eq_true rfl) (List.find?_eq_none.mp hfirst state hmem)
      | some first =>
        obtain rfl : first = state := by simpa using List.find?_some hfirst
        rfl

end Shell

end InterFire
