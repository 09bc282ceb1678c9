import InterFire.RefusedChanges
import InterFire.Serving
import InterFire.TerminalRange

/-!
# Commands of the terminal client

What a command of `crates/interfire-tui/src/app.rs` is sent as by `handle_command` of `ipc.rs`, and what
the daemon has done when it answers pong. The keys give only commands whose texts the forms offer, but
for the executable of a new rule, which is typed.

`IpcCommand.done_of_handle_pong` says that such a command, if its executable is a word, has changed what
it names: the rules and their document, the prompt, or the preference of the peer.
-/

set_option autoImplicit false
set_option relaxedAutoImplicit false

namespace InterFire

/-! ### What a request has done that is answered with pong -/

namespace PolicyStore

variable {toml : Toml} {inputs : PolicyInputs} {store : PolicyStore}

/-- A rule request that is answered with pong has made its change and saved it. Assumes: it is, and the
change is one that is saved. -/
theorem accepts_of_mutate_pong {change : RulesChange} (hsaved : change.isSaved = true)
    (hpong : (store.mutate toml inputs change).2 = .pong) :
    ∃ rules, store.Accepts change rules true ∧
      RulesStore.Saves toml inputs.save rules store.directory ∧
      (store.mutate toml inputs change).1.rules.value = rules := by
  unfold mutate at hpong ⊢
  cases hmay : inputs.peerMayMutate with
  | false => simp [hmay] at hpong
  | true =>
    by_cases hbroken : store.Refuses change ∨ FailsToSave toml inputs.save store change
    · obtain ⟨code, herror⟩ := changeRules_of_broken hbroken
      simp [hmay, herror, respond] at hpong
    · obtain ⟨rules, saved, haccepts, hsaves, hchange⟩ := changeRules_of_done hbroken
      obtain rfl : saved = true := by rw [(RulesChange.apply_cases haccepts.2).1, hsaved]
      refine ⟨rules, haccepts, hsaves rfl, ?_⟩
      simp [hchange]

/-- After an answer that is answered with pong the prompt is answered. Assumes: it is. -/
theorem answered_of_promptAnswer_pong {id : UInt64} {verdict scope : String}
    (hpong : (store.promptAnswer toml inputs id verdict scope).2 = .pong) :
    ∃ prompt, (store.promptAnswer toml inputs id verdict scope).1.prompts.value.prompts.get id =
      some prompt ∧ prompt.state = .answered := by
  rcases promptAnswer_cases toml inputs id verdict scope store with
    ⟨_, hrefused⟩ | ⟨_, hrefused⟩ | ⟨answer, lifetime, prompt, hreaches, hget,
      ⟨hanswered, hrepeated⟩ | ⟨_, _, honce⟩ | ⟨hpending, hlasting⟩⟩
  · rw [hrefused] at hpong
    cases hpong
  · rw [hrefused] at hpong
    cases hpong
  · rw [hrepeated]
    exact ⟨prompt, hget, hanswered⟩
  · rw [honce]
    exact ⟨_, get_recorded hget answer .once, rfl⟩
  · rw [promptAnswer_of_lasting hreaches hlasting hget hpending, prompts_changeRules]
    exact ⟨_, get_recorded hget answer lifetime, rfl⟩

end PolicyStore

namespace ControlState

/-- A traffic request that is answered with pong has set the preference of its owner. Assumes: it is.
-/
theorem handle_of_trafficMutate_pong {context : RequestContext} {state : ControlState}
    {scope : String} {direction : Option String} {unblock : Bool}
    (hpong : (state.trafficMutate context scope direction unblock).2 = .pong) :
    ∃ uid allowed request, context.peerUid = some uid ∧ trafficScope uid scope = .ok allowed ∧
      (if unblock then request = ModeRequest.trafficUnblock allowed uid
        else ∃ preference, direction.bind TrafficPreference.parse = some preference ∧
          preference ≠ .open ∧ request = .trafficBlock allowed preference uid) ∧
      state.enforcement.handle context.outcomes request =
        ((state.trafficMutate context scope direction unblock).1.enforcement, .ok ()) := by
  have hchanged : ∀ (request : ModeRequest) (failure : String),
      (state.changeMode context request failure).2 = .pong →
      state.enforcement.handle context.outcomes request =
        ((state.changeMode context request failure).1.enforcement, .ok ()) := by
    intro request failure hanswer
    unfold changeMode at hanswer ⊢
    cases hhandle : state.enforcement.handle context.outcomes request with
    | mk enforcement result =>
      cases result with
      | ok done => rfl
      | error error => simp [hhandle] at hanswer
  unfold trafficMutate at hpong ⊢
  cases hmay : context.peerMayMutate with
  | false => simp [hmay] at hpong
  | true =>
    cases huid : context.peerUid with
    | none => simp [hmay, huid] at hpong
    | some uid =>
      simp only [hmay, huid, Bool.not_true, Bool.false_eq_true, if_false] at hpong ⊢
      cases hscope : trafficScope uid scope with
      | error code => simp [hscope] at hpong
      | ok allowed =>
        simp only [hscope] at hpong ⊢
        cases unblock with
        | true =>
          exact ⟨uid, allowed, .trafficUnblock allowed uid, rfl, hscope, rfl,
            hchanged _ _ hpong⟩
        | false =>
          cases hparse : direction.bind TrafficPreference.parse with
          | none => simp [hparse] at hpong
          | some preference =>
            by_cases hopen : preference = .open
            · simp [hparse, hopen] at hpong
            · simp only [hparse, hopen, Bool.false_eq_true, if_false] at hpong ⊢
              exact ⟨uid, allowed, .trafficBlock allowed preference uid, rfl, hscope,
                ⟨preference, rfl, hopen, rfl⟩, hchanged _ _ hpong⟩

end ControlState

namespace Terminal

/-! ### The lines -/

/-- The line that a command is sent as. -/
def IpcCommand.line : IpcCommand → String
  | .refreshRules => "v1 rule-list\n"
  | .refreshPrompts => "v1 prompt-list\n"
  | .deleteRule id => "v1 rule-delete " ++ decimal id.toNat ++ "\n"
  | .addRule rule => rule.frame
  | .answerPrompt id verdict scope =>
    "v1 prompt-answer " ++ decimal id.toNat ++ " " ++ verdict ++ " " ++ scope ++ "\n"
  | .trafficBlock scope direction =>
    "v1 traffic-block scope=" ++ scope ++ " direction=" ++ direction ++ "\n"
  | .trafficUnblock scope => "v1 traffic-unblock scope=" ++ scope ++ "\n"

/-! ### What the keys ask for -/

/-- What a command asks the daemon for. -/
def IpcCommand.request : IpcCommand → Request
  | .refreshRules => .ruleList
  | .refreshPrompts => .promptList
  | .deleteRule id => .ruleDelete id
  | .addRule rule => rule.request
  | .answerPrompt id verdict scope => .promptAnswer id verdict scope
  | .trafficBlock scope direction => .trafficBlock scope direction
  | .trafficUnblock scope => .trafficUnblock scope

/-- The texts of a command are among those that the forms offer. Only an executable is typed. -/
def IpcCommand.Offered : IpcCommand → Prop
  | .addRule rule => Text.IsWord rule.verdict
  | .answerPrompt _ verdict scope =>
    verdict ∈ ["allow", "deny"] ∧ scope ∈ ["once", "session", "permanent"]
  | .trafficBlock scope direction => scope = "user" ∧ direction ∈ ["in", "out", "all"]
  | .trafficUnblock scope => scope = "user"
  | _ => True

/-- The command is one line of words. -/
def IpcCommand.Unspaced : IpcCommand → Prop
  | .addRule rule => Text.IsWord rule.executable
  | _ => True

theorem TrafficForm.offered_of_toCommand {form : TrafficForm} {command : IpcCommand}
    (hcommand : form.toCommand = .ok command) : command.Offered := by
  obtain ⟨scope, direction, action⟩ := form
  cases scope with
  | machine => cases hcommand
  | user =>
    cases action with
    | block =>
      obtain rfl := Except.ok.inj hcommand
      cases direction <;> exact ⟨rfl, by decide⟩
    | unblock =>
      obtain rfl := Except.ok.inj hcommand
      rfl

/-- The commands of the keys are offered. Assumes: a key gives the command. -/
theorem App.offered_of_handleKey {app : App} {code : KeyCode} {command : IpcCommand}
    (hcommand : (app.handleKey code).2 = .command command) : command.Offered := by
  unfold handleKey at hcommand
  split at hcommand
  · unfold handleRootKey at hcommand
    split at hcommand
    case h_21 =>
      dsimp only at hcommand
      split_ifs at hcommand
      unfold deleteSelectedRule at hcommand
      split at hcommand
      · obtain rfl := KeyAction.command.inj hcommand
        trivial
      · cases hcommand
    case h_22 =>
      dsimp only at hcommand
      split_ifs at hcommand
      · obtain rfl := KeyAction.command.inj hcommand
        trivial
      · obtain rfl := KeyAction.command.inj hcommand
        trivial
    case h_25 =>
      dsimp only at hcommand
      split_ifs at hcommand
      obtain rfl := KeyAction.command.inj hcommand
      exact ⟨rfl, by decide⟩
    case h_26 =>
      dsimp only at hcommand
      split_ifs at hcommand
      obtain rfl := KeyAction.command.inj hcommand
      exact ⟨rfl, by decide⟩
    case h_27 =>
      dsimp only at hcommand
      split_ifs at hcommand
      obtain rfl := KeyAction.command.inj hcommand
      rfl
    case h_20 | h_23 | h_28 | h_29 =>
      split_ifs at hcommand
      simp at hcommand
    all_goals cases hcommand
  · cases hcommand
  · unfold handleAddOverlayKey at hcommand
    split at hcommand
    case h_2 =>
      split at hcommand
      · next rule hrule =>
        obtain rfl := KeyAction.command.inj hcommand
        exact (AddRuleForm.of_toCommand hrule).2.2
      · cases hcommand
    case h_6 => split_ifs at hcommand
    all_goals cases hcommand
  · next form _ =>
    unfold handleAnswerOverlayKey at hcommand
    split at hcommand
    case h_2 =>
      split_ifs at hcommand
      obtain rfl := KeyAction.command.inj hcommand
      refine ⟨?_, ?_⟩
      · cases form.verdict <;> decide
      · cases form.scope <;> decide
    all_goals cases hcommand
  · unfold handleTrafficOverlayKey at hcommand
    split at hcommand
    case h_2 =>
      split at hcommand
      · next command' hform =>
        obtain rfl := KeyAction.command.inj hcommand
        exact TrafficForm.offered_of_toCommand hform
      · cases hcommand
    all_goals cases hcommand

/-- The daemon reads what the client asks for. Assumes: the command is offered and unspaced. -/
theorem IpcCommand.conveys_line {command : IpcCommand} (hoffered : command.Offered)
    (hunspaced : command.Unspaced) : Conveys command.line.toList (some command.request) := by
  cases command with
  | refreshRules => exact @conveys_bare "rule-list" .ruleList (by decide) rfl rfl
  | refreshPrompts => exact @conveys_bare "prompt-list" .promptList (by decide) rfl rfl
  | deleteRule id =>
    have hconveys := @conveys_ruleDelete (decimal id.toNat)
      (by rw [isNumber, parseNumber_decimal id.toNat_lt]; rfl)
    rw [parseNumber_decimal id.toNat_lt, Option.map_some, UInt64.ofNat_toNat] at hconveys
    exact hconveys
  | addRule rule => exact (conveys_frame_iff hoffered).mpr hunspaced
  | answerPrompt id verdict scope =>
    have hconveys := @conveys_promptAnswer (decimal id.toNat) verdict scope
      (by rw [isNumber, parseNumber_decimal id.toNat_lt]; rfl) hoffered.1 hoffered.2
    rw [parseNumber_decimal id.toNat_lt, Option.map_some, UInt64.ofNat_toNat] at hconveys
    exact hconveys
  | trafficBlock scope direction =>
    obtain ⟨rfl, hdirection⟩ := hoffered
    simp only [List.mem_cons, List.not_mem_nil, or_false] at hdirection
    rcases hdirection with rfl | rfl | rfl
    · exact @conveys_traffic "block" "traffic-block scope=user direction=in" ["--direction=in"] rfl
    · exact @conveys_traffic "block" "traffic-block scope=user direction=out" [] rfl
    · exact @conveys_traffic "block" "traffic-block scope=user direction=all" ["--direction=all"] rfl
  | trafficUnblock scope =>
    obtain rfl := hoffered
    exact @conveys_traffic "unblock" "traffic-unblock scope=user" [] rfl

/-- What a command has done that is answered with pong: the rule is gone, or there, and saved; the
prompt is answered; the modes have taken the preference of the peer. -/
def IpcCommand.Done (toml : Toml) (context : RequestContext) (before after : ControlState) :
    IpcCommand → Prop
  | .deleteRule id =>
    (∃ rule ∈ before.shared.rules.value.rules, rule.id = id) ∧
      (∀ rule ∈ after.shared.rules.value.rules, rule.id ≠ id) ∧
      RulesStore.Saves toml context.save after.shared.rules.value before.directory
  | .addRule rule =>
    ∃ verdict, ruleVerdict rule.verdict = some verdict ∧
      after.shared.rules.value.rules = before.shared.rules.value.rules ++
        [Rule.forPort rule.id rule.executable rule.port verdict .permanent] ∧
      RulesStore.Saves toml context.save after.shared.rules.value before.directory
  | .answerPrompt id _ _ =>
    ∃ prompt, after.shared.prompts.value.prompts.get id = some prompt ∧ prompt.state = .answered
  | .trafficBlock _ direction =>
    ∃ uid preference, context.peerUid = some uid ∧
      TrafficPreference.parse direction = some preference ∧ preference ≠ .open ∧
      before.enforcement.handle context.outcomes (.trafficBlock .user preference uid) =
        (after.enforcement, .ok ())
  | .trafficUnblock _ =>
    ∃ uid, context.peerUid = some uid ∧
      before.enforcement.handle context.outcomes (.trafficUnblock .user uid) =
        (after.enforcement, .ok ())
  | .refreshRules | .refreshPrompts => True

/-- A command that is answered with pong is done. Assumes: it is, and the command is offered. -/
theorem IpcCommand.done_of_dispatch_pong {toml : Toml} {context : RequestContext}
    {state : ControlState} {command : IpcCommand} (hoffered : command.Offered)
    (hpong : (dispatch toml context state command.request).2 = some .pong) :
    command.Done toml context state (dispatch toml context state command.request).1 := by
  cases command with
  | refreshRules => trivial
  | refreshPrompts => trivial
  | deleteRule id =>
    obtain ⟨rules, haccepts, hsaves, hafter⟩ :=
      @PolicyStore.accepts_of_mutate_pong _ _ _ (.delete id) rfl (Option.some.inj hpong)
    have hafter' : (dispatch toml context state (.ruleDelete id)).1.shared.rules.value = rules :=
      hafter
    obtain ⟨_, ⟨found, hfound, hremove⟩ | ⟨rule, hrule, _⟩⟩ := RulesChange.apply_cases haccepts.2
    · obtain rfl := RulesChange.delete.inj hfound
      obtain ⟨hkept, hremoved⟩ := Prod.mk.inj hremove
      rw [Done, request, hafter', ← hkept]
      refine ⟨?_, fun rule hrule ↦ by simpa using (List.mem_filter.mp hrule).2, hkept ▸ hsaves⟩
      by_contra hnone
      push Not at hnone
      have hall : state.shared.rules.value.rules.filter (·.id ≠ id) =
          state.shared.rules.value.rules :=
        List.filter_eq_self.mpr fun rule hrule ↦ decide_eq_true (hnone rule hrule)
      exact of_decide_eq_true hremoved (congrArg List.length hall).symm
    · cases hrule
  | addRule rule =>
    obtain ⟨rules, haccepts, hsaves, hafter⟩ :=
      @PolicyStore.accepts_of_mutate_pong _ _ _
        (.add rule.id rule.executable rule.verdict rule.port) rfl (Option.some.inj hpong)
    have hafter' : (dispatch toml context state rule.request).1.shared.rules.value = rules := hafter
    obtain ⟨_, ⟨found, hfound, _⟩ | ⟨added, hadded, hinsert⟩⟩ := RulesChange.apply_cases haccepts.2
    · cases hfound
    · obtain ⟨verdict, hverdict, rfl⟩ := Option.map_eq_some_iff.mp hadded
      obtain ⟨rfl, _, _⟩ := RuleSet.of_insert_ok hinsert
      rw [Done, request, hafter']
      exact ⟨verdict, hverdict, rfl, hsaves⟩
  | answerPrompt id verdict scope =>
    exact PolicyStore.answered_of_promptAnswer_pong (Option.some.inj hpong)
  | trafficBlock scope direction =>
    obtain ⟨rfl, _⟩ := hoffered
    obtain ⟨uid, allowed, request, huid, hscope, hrequest, hhandle⟩ :=
      ControlState.handle_of_trafficMutate_pong (Option.some.inj hpong)
    obtain rfl := Except.ok.inj hscope
    obtain ⟨preference, hparse, hopen, rfl⟩ := hrequest
    exact ⟨uid, preference, huid, hparse, hopen, hhandle⟩
  | trafficUnblock scope =>
    obtain rfl := hoffered
    obtain ⟨uid, allowed, request, huid, hscope, hrequest, hhandle⟩ :=
      ControlState.handle_of_trafficMutate_pong (Option.some.inj hpong)
    obtain rfl := Except.ok.inj hscope
    obtain rfl := hrequest
    exact ⟨uid, huid, hhandle⟩

/-- A command whose line is answered with pong is done. Assumes: it is, and the command is offered and
unspaced. -/
theorem IpcCommand.done_of_handle_pong {toml : Toml} {daemon : ServingDaemon}
    {context : RequestContext} {listing : Option String} {command : IpcCommand}
    (hoffered : command.Offered) (hunspaced : command.Unspaced)
    (hpong : (daemon.handle toml context listing command.line.toList).2 = some .pong) :
    command.Done toml context daemon.control
      (daemon.handle toml context listing command.line.toList).1.control := by
  obtain ⟨_, request, hrequest, hparse⟩ := IpcCommand.conveys_line hoffered hunspaced
  obtain rfl := Option.some.inj hrequest
  have hcontext : ∀ before after : ControlState,
      command.Done toml (daemon.context context listing) before after →
        command.Done toml context before after := by
    intro before after hdone
    cases command <;> exact hdone
  have hhandle : daemon.handle toml context listing command.line.toList =
      ({ daemon with
          control := (dispatch toml (daemon.context context listing) daemon.control
            command.request).1 },
        (dispatch toml (daemon.context context listing) daemon.control command.request).2) := by
    unfold ServingDaemon.handle at hpong ⊢
    split_ifs at hpong ⊢ with hsize
    · cases hpong
    · rw [hparse]
      cases command <;> rfl
  rw [hhandle] at hpong ⊢
  exact hcontext _ _ (done_of_dispatch_pong hoffered hpong)

end Terminal

end InterFire
