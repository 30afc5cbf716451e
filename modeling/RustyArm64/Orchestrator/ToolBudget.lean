import RustyArm64.Orchestrator.HeadTask
import RustyArm64.Orchestrator.ToolHistory

/-! The tool budget. The coder counts its tool turns and asks the model to wrap up
once they are used up, but the next node depends on the reply alone. -/
namespace Orchestrator

open Replay

section Budget

variable {Id : Type}

/-- A tool turn is an entry into the tool node. -/
def noteToolTurn (seen : Nat) (_ : Input) (next : Config Id) : Nat :=
  if next.place = .coderTools then seen + 1 else seen

/-- The invariant behind the tool counter, by place. -/
def ToolRecord (turns : Nat) (config : Config Id) : Prop :=
  config.state.toolCallCount = turns ∧
  match config.place with
  | .planner | .suspended _ => config.state.messages = []
  | .coder | .tester => lastCalls config.state.messages = [] ∧
      (turns ≠ 0 → config.state.messages ≠ [])
  | .coderTools => config.state.messages ≠ []
  | _ => True

/-- A turn with several calls counts once. -/
theorem afterCoder_toolCallCount (settings : Settings Id) (state : WorkflowState Id)
    (seedId : String) (response : AiMessage) :
    (afterCoder state settings seedId response).toolCallCount =
      if response.toolCalls.isEmpty then state.toolCallCount else state.toolCallCount + 1 := by
  unfold afterCoder coderNode
  dsimp only
  split <;> rfl

variable {settings : Settings Id} {state : WorkflowState Id} {turns : Nat}

/-- A coder turn counts exactly if the tools are next. -/
theorem ToolRecord.coder {seedId : String} {response : AiMessage}
    (h : ToolRecord turns ⟨.coder, state⟩)
    (hFresh : FreshMessageIds settings state (.coder seedId response)) :
    ToolRecord (if response.toolCalls.isEmpty then turns else turns + 1)
      ⟨if response.toolCalls.isEmpty then .tester else .coderTools,
        afterCoder state settings seedId response⟩ := by
  have hLast := getLast?_afterCoder hFresh
  have hSome : (afterCoder state settings seedId response).messages ≠ [] := by
    intro hNone
    rw [hNone] at hLast
    cases hLast
  have hCount := afterCoder_toolCallCount settings state seedId response
  obtain ⟨hTurns, -⟩ := h
  dsimp only at hTurns
  rw [hTurns] at hCount
  cases hCalls : response.toolCalls with
  | nil =>
      rw [hCalls] at hCount
      refine ⟨hCount, ?_, fun _ => hSome⟩
      dsimp only
      rw [lastCalls, hLast]
      exact congrArg (List.map ToolCall.id) hCalls
  | cons call rest =>
      rw [hCalls] at hCount
      exact ⟨hCount, hSome⟩

theorem ToolRecord.tools {results : List (String × String)} {update : Update Id}
    (h : ToolRecord turns ⟨.coderTools, state⟩) (hUpdate : toolNode state results = some update)
    (hFresh : FreshMessageIds settings state (.tools results)) :
    ToolRecord turns
      ⟨.coder, { state with
        messages := addMessages state.messages (update.messages.getD []) }⟩ := by
  obtain ⟨hTurns, hSome⟩ := h
  refine ⟨hTurns, lastCalls_afterTools hUpdate hFresh, fun _ => ?_⟩
  obtain ⟨id, content, toolCalls, -, -, hMessages⟩ := toolNode_messages hUpdate hFresh
  dsimp only
  rw [hMessages]
  exact fun hNone => hSome (List.append_eq_nil_iff.mp hNone).1

/-- A test run leaves the count; what follows is a turn of the same task or another one. -/
theorem ToolRecord.test (h : ToolRecord turns ⟨.tester, state⟩) (outcome : CargoOutcome) :
    ToolRecord turns ⟨placeAfterTest state outcome, afterTest state outcome⟩ := by
  rcases placeAfterTest_cases state outcome with hPasses | hFails | hRetries
  · rw [hPasses]
    exact ⟨h.1, trivial⟩
  · rw [hFails]
    exact ⟨h.1, trivial⟩
  · rw [hRetries]
    exact h

theorem ToolRecord.nextTask (state : WorkflowState Id) (task : Id) (rest : List Id) :
    ToolRecord 0 ⟨if rest.isEmpty then .finished else .coder, afterTask state task rest⟩ := by
  refine ⟨rfl, ?_⟩
  cases rest with
  | nil => trivial
  | cons second others =>
      dsimp only
      rw [afterTask_messages]
      exact ⟨rfl, fun hTurns => (hTurns rfl).elim⟩

end Budget

variable {Id : Type} [DecidableEq Id] [Value Id]

/-- How often the tool node has been entered while the head task was the head. -/
def toolTurns (settings : Settings Id) (goal : String) (inputs : List Input) : Nat :=
  sinceHead settings goal 0 noteToolTurn inputs

/-- The turns counted for the head stay with it. -/
theorem toolTurns_kept {settings : Settings Id} {goal : String} {past : List Input}
    {prev next : Config Id} {input : Input} (hRun : runOf settings goal past = some prev)
    (hStep : step settings prev input = some next) (hHead : ¬HeadChanged prev next) :
    toolTurns settings goal (past ++ [input]) =
      if next.place = .coderTools then toolTurns settings goal past + 1
      else toolTurns settings goal past :=
  sinceHead_kept 0 noteToolTurn hRun hStep hHead

/-- One step keeps the record that ties the counter to the turns seen. -/
theorem ToolRecord.step {settings : Settings Id} {goal : String} {past : List Input}
    {config next : Config Id} {input : Input} (hRun : runOf settings goal past = some config)
    (h : ToolRecord (toolTurns settings goal past) config)
    (hFresh : FreshMessageIds settings config.state input)
    (hStep : Orchestrator.step settings config input = some next) :
    ToolRecord (toolTurns settings goal (past ++ [input])) next := by
  have hKept := toolTurns_kept hRun hStep
  have hChanged : HeadChanged config next → toolTurns settings goal (past ++ [input]) = 0 :=
    sinceHead_changed 0 noteToolTurn hRun hStep
  cases moves_of_step hStep with
  | draft state reply =>
      rw [hKept (not_headChanged rfl rfl), if_neg Place.noConfusion]
      exact h
  | approve state shown response reply hApproves =>
      rw [hChanged (headChanged_approve hRun reply)]
      refine ⟨rfl, ?_, fun hTurns => (hTurns rfl).elim⟩
      exact (congrArg lastCalls h.2).trans rfl
  | revise state shown response reply hRejects =>
      rw [hKept (not_headChanged rfl rfl), planEvaluator_of_suspended hRun,
        if_neg Place.noConfusion]
      exact h
  | coder state seedId response route hRoute =>
      have hNext := h.coder hFresh
      rw [coderRouter_afterCoder hFresh, Option.some.injEq] at hRoute
      rw [hKept (not_headChanged rfl rfl), ← hRoute]
      cases hCalls : response.toolCalls with
      | nil => simpa [hCalls, Route.place] using hNext
      | cons call rest => simpa [hCalls, Route.place] using hNext
  | tools state results update hUpdate =>
      rw [hKept (not_headChanged rfl rfl), if_neg Place.noConfusion]
      exact h.tools hUpdate hFresh
  | test state outcome =>
      have hPlace : placeAfterTest state outcome ≠ .coderTools :=
        fun hTools => Place.noConfusion (coder_of_tools hStep hTools)
      rw [hKept (not_headChanged rfl rfl), if_neg hPlace]
      exact h.test outcome
  | emptyQueue state gitStatus hTodo =>
      rw [hKept (not_headChanged rfl rfl), if_neg Place.noConfusion]
      exact ⟨h.1, trivial⟩
  | nextTask state gitStatus task rest hTodo =>
      rw [hChanged (headChanged_nextTask state task rest _)]
      exact ToolRecord.nextTask state task rest
  | giveUp state =>
      rw [hKept (not_headChanged rfl rfl), if_neg Place.noConfusion]
      exact ⟨h.1, trivial⟩

/-- The ids of new messages are fresh, as the reducer relies on. -/
def AppendsMessages (settings : Settings Id) (config : Config Id) (input : Input) : Prop :=
  FreshMessageIds settings config.state input

instance (settings : Settings Id) (config : Config Id) (input : Input) :
    Decidable (AppendsMessages settings config input) :=
  inferInstanceAs (Decidable (FreshMessageIds settings config.state input))

/-- The model heeds the request to wrap up. -/
def Heeds (settings : Settings Id) (config : Config Id) : Input → Prop
  | .coder _ response =>
    (coderRequest settings config.state).getLast? = some limitMessage → response.toolCalls = []
  | _ => True

theorem toolRecord_start (settings : Settings Id) (goal : String) :
    ToolRecord (toolTurns settings goal []) (start Id goal) := ⟨rfl, rfl⟩

/-- With the budget used up, a request on a conversation ends with the wish to
wrap up. -/
theorem ToolRecord.wrapUp {settings : Settings Id} {turns : Nat} {state : WorkflowState Id}
    (h : ToolRecord turns ⟨.coder, state⟩) (hSpent : settings.maxToolCalls ≤ turns)
    (hSome : state.messages ≠ []) :
    (coderRequest settings state).getLast? = some limitMessage := by
  obtain ⟨hTurns, hLast, -⟩ := h
  have hHistory : coderHistory settings state = state.messages ++ [limitMessage] := by
    rw [coderHistory, sanitizeHistory_eq hLast]
    exact if_pos ⟨hTurns ▸ hSpent, hSome⟩
  have hRequest : coderRequest settings state =
      ⟨none, .system (buildSystemPrompt state settings.baseSystemPrompt)⟩ ::
        (state.messages ++ [limitMessage]) := by
    rw [coderRequest, hHistory]
    exact if_neg (by simp)
  rw [hRequest, ← List.cons_append, List.getLast?_concat]

/-- What holds of the tool turns in a run. -/
structure BudgetLaw (settings : Settings Id) (goal : String) (inputs : List Input)
    (config : Config Id) : Prop where
  counts : config.state.toolCallCount = toolTurns settings goal inputs
  /-- The reply alone decides, not the budget. -/
  routes : config.place = .coder → ∀ seedId response,
    AppendsMessages settings config (.coder seedId response) →
      (step settings config (.coder seedId response)).map Config.place =
        some (if response.toolCalls = [] then .tester else .coderTools)
  begun : config.place = .coder → toolTurns settings goal inputs ≠ 0 → config.state.messages ≠ []
  wrapUp : config.place = .coder → settings.maxToolCalls ≤ toolTurns settings goal inputs →
    config.state.messages ≠ [] →
      (coderRequest settings config.state).getLast? = some limitMessage
  /-- One turn is free: with an empty conversation there is no wish to wrap up. -/
  bounded : Along (step settings) (Heeds settings) (start Id goal) inputs →
    toolTurns settings goal inputs ≤ max 1 settings.maxToolCalls

/-- Only the coder leads to the tools, with a reply that calls some. -/
theorem coder_of_coderTools {settings : Settings Id} {config next : Config Id} {input : Input}
    (hStep : step settings config input = some next) (hTools : next.place = .coderTools)
    (hFresh : AppendsMessages settings config input) :
    config.place = .coder ∧ ∃ seedId response, input = .coder seedId response ∧
      response.toolCalls ≠ [] := by
  have hCoder := coder_of_tools hStep hTools
  cases moves_of_step hStep with
  | coder state seedId response route hRoute =>
      refine ⟨rfl, seedId, response, rfl, fun hNone => ?_⟩
      rw [coderRouter_afterCoder hFresh, hNone, Option.some.injEq] at hRoute
      subst hRoute
      cases hTools
  | _ => cases hCoder

/-- The record holds after every run whose messages are new ones. -/
theorem toolRecord_of_run {settings : Settings Id} {goal : String} {inputs : List Input}
    {config : Config Id} (hRun : runOf settings goal inputs = some config)
    (hFresh : Along (step settings) (AppendsMessages settings) (start Id goal) inputs) :
    ToolRecord (toolTurns settings goal inputs) config :=
  replay_along (AppendsMessages settings)
    (fun inputs config => ToolRecord (toolTurns settings goal inputs) config)
    (toolRecord_start settings goal)
    (fun _ _ _ _ hPast h hNew hStep => h.step hPast hNew hStep) hRun hFresh

/-- A step of a model that heeds the wish to wrap up keeps the bound. -/
theorem toolTurns_step_le {settings : Settings Id} {goal : String} {past : List Input}
    {config next : Config Id} {input : Input} (hRun : runOf settings goal past = some config)
    (h : ToolRecord (toolTurns settings goal past) config)
    (hBound : toolTurns settings goal past ≤ max 1 settings.maxToolCalls)
    (hFresh : AppendsMessages settings config input) (hHeeds : Heeds settings config input)
    (hStep : Orchestrator.step settings config input = some next) :
    toolTurns settings goal (past ++ [input]) ≤ max 1 settings.maxToolCalls := by
  by_cases hHead : HeadChanged config next
  · have hZero : toolTurns settings goal (past ++ [input]) = 0 :=
      sinceHead_changed 0 noteToolTurn hRun hStep hHead
    rw [hZero]
    exact Nat.zero_le _
  rw [toolTurns_kept hRun hStep hHead]
  split
  · rename_i hTools
    obtain ⟨hPlace, seedId, response, rfl, hCalls⟩ := coder_of_coderTools hStep hTools hFresh
    obtain ⟨place, state⟩ := config
    cases hPlace
    by_cases hSpent : settings.maxToolCalls ≤ toolTurns settings goal past
    · by_cases hNone : state.messages = []
      · -- The one turn without a conversation is the first one.
        have hFirst : toolTurns settings goal past = 0 :=
          Decidable.byContradiction fun hTurns => h.2.2 hTurns hNone
        omega
      · exact (hCalls (hHeeds (h.wrapUp hSpent hNone))).elim
    · omega
  · exact hBound

/-- The counter and the router in every run, and the bound on the tool turns of a
task for a model that heeds the wish to wrap up. There is none for a model that does not. -/
theorem budgetLaw_of_run (settings : Settings Id) (goal : String) (inputs : List Input)
    (config : Config Id) (hRun : runOf settings goal inputs = some config)
    (hFresh : Along (step settings) (AppendsMessages settings) (start Id goal) inputs) :
    BudgetLaw settings goal inputs config := by
  have hRecord := toolRecord_of_run hRun hFresh
  obtain ⟨place, state⟩ := config
  refine ⟨hRecord.1, ?_, ?_, ?_, fun hHeeds => ?_⟩
  · rintro hPlace seedId response hNew
    cases hPlace
    simp only [step, merge_coderNode, coderRouter_afterCoder hNew, Option.map_some]
    cases response.toolCalls with
    | nil => rfl
    | cons call rest => rfl
  · rintro hPlace
    cases hPlace
    exact hRecord.2.2
  · rintro hPlace
    cases hPlace
    exact hRecord.wrapUp
  · have hLaw := replay_along
      (fun config input => AppendsMessages settings config input ∧ Heeds settings config input)
      (fun inputs config => ToolRecord (toolTurns settings goal inputs) config ∧
        toolTurns settings goal inputs ≤ max 1 settings.maxToolCalls)
      ⟨toolRecord_start settings goal, Nat.zero_le _⟩
      (fun _ _ _ _ hPast h hNew hStep => ⟨h.1.step hPast hNew.1 hStep,
        toolTurns_step_le hPast h.1 h.2 hNew.1 hNew.2 hStep⟩) hRun (hFresh.and hHeeds)
    exact hLaw.2

/-- A budget of one tool turn. -/
def frugalSettings : Settings String := { idLineSettings with maxToolCalls := 1 }

/-- The model calls a tool, and once more after the result. -/
def twoToolTurns : List Input :=
  [.draft "id: a", .resume "yes" "id: a", .coder "m0" ⟨"m1", "", [⟨"c1"⟩]⟩, .tools [("m2", "")],
    .coder "m0" ⟨"m3", "", [⟨"c2"⟩]⟩]

def secondToolTurn : WorkflowState String :=
  let first := afterCoder (approvedConfig "id: a").state frugalSettings "m0" ⟨"m1", "", [⟨"c1"⟩]⟩
  let answered := { first with messages := first.messages ++ [⟨some "m2", .tool "c1" ""⟩] }
  afterCoder answered frugalSettings "m0" ⟨"m3", "", [⟨"c2"⟩]⟩

theorem twoToolTurns_run :
    runOf frugalSettings "goal" twoToolTurns = some ⟨.coderTools, secondToolTurn⟩ := by
  decide +kernel

theorem twoToolTurns_fresh :
    Along (step frugalSettings) (AppendsMessages frugalSettings) (start String "goal")
      twoToolTurns := by
  decide +kernel

theorem budgetLaw_of_twoToolTurns :
    BudgetLaw frugalSettings "goal" twoToolTurns ⟨.coderTools, secondToolTurn⟩ :=
  budgetLaw_of_run frugalSettings "goal" twoToolTurns ⟨.coderTools, secondToolTurn⟩
    twoToolTurns_run twoToolTurns_fresh

/-- The tools are entered twice for one task, and the budget allows one turn. -/
theorem tools_past_the_budget :
    runOf frugalSettings "goal" twoToolTurns = some ⟨.coderTools, secondToolTurn⟩ ∧
    Along (step frugalSettings) (AppendsMessages frugalSettings) (start String "goal")
      twoToolTurns ∧
    secondToolTurn.planApproved = true ∧ secondToolTurn.todoTasks = ["a"] ∧
    ¬toolTurns frugalSettings "goal" twoToolTurns ≤ frugalSettings.maxToolCalls := by
  refine ⟨twoToolTurns_run, twoToolTurns_fresh, ?_⟩
  decide +kernel

end Orchestrator
