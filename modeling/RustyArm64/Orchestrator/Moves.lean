import RustyArm64.Orchestrator.Graph

/-! Everything a step of the workflow graph can do. The results about runs are
derived from these moves alone, without a look at the nodes. -/
namespace Orchestrator

open Suspension (execute_first execute_again)

section Merge

variable {Id : Type} (state : WorkflowState Id)

/-- An update without fields leaves the state. -/
theorem merge_empty : state.merge {} = state := by
  simp [WorkflowState.merge, addMessages]

/-- The state after the coder: it writes messages and counts a tool turn. -/
def afterCoder (settings : Settings Id) (seedId : String) (response : AiMessage) :
    WorkflowState Id :=
  let update := coderNode settings state seedId response
  { state with
    messages := addMessages state.messages (update.messages.getD [])
    toolCallCount := update.toolCallCount.getD state.toolCallCount }

/-- The coder writes messages and counts its tool turn; the rest of the state stays. -/
theorem merge_coderNode (settings : Settings Id) (seedId : String) (response : AiMessage) :
    state.merge (coderNode settings state seedId response) =
      afterCoder state settings seedId response := by
  simp [coderNode, WorkflowState.merge, afterCoder]

/-- The tool node writes messages only. It is partial: it raises where no call is pending or
the results do not match, which the graph then has to rule out. -/
theorem merge_toolNode {results : List (String × String)} {update : Update Id}
    (hUpdate : toolNode state results = some update) :
    state.merge update =
      { state with messages := addMessages state.messages (update.messages.getD []) } := by
  unfold toolNode at hUpdate
  split at hUpdate
  · split at hUpdate
    · cases hUpdate
      simp [WorkflowState.merge]
    · cases hUpdate
  · cases hUpdate

/-- The state after a test run. -/
def afterTest (outcome : CargoOutcome) : WorkflowState Id :=
  { state with
    testResults := outcome.report
    testsPassed := outcome.passed
    retryCount := if outcome.passed then 0 else state.retryCount + 1 }

/-- The tester writes the outcome and the retry counter, and never the task lists. -/
theorem merge_testerNode (outcome : CargoOutcome) :
    state.merge (testerNode state outcome) = afterTest state outcome := by
  cases hPassed : outcome.passed <;>
    simp [testerNode, hPassed, WorkflowState.merge, afterTest, addMessages]

/-- The state after the first task was moved to the completed ones. -/
def afterTask (task : Id) (rest : List Id) : WorkflowState Id :=
  { state with
    todoTasks := rest
    completedTasks := state.completedTasks ++ [task]
    messages := addMessages state.messages (state.messages.map fun m => .remove m.id)
    testsPassed := false
    retryCount := 0
    toolCallCount := 0 }

/-- The node after a test run. -/
def placeAfterTest (outcome : CargoOutcome) : Place :=
  if outcome.passed then .queueManager
  else if state.retryCount + 1 ≥ maxTestRetries then .giveUp
  else .coder

/-- Where a test run leads: to the commit, to the end after too many failures, or back. -/
theorem placeAfterTest_cases (outcome : CargoOutcome) :
    placeAfterTest state outcome = .queueManager ∨ placeAfterTest state outcome = .giveUp ∨
      placeAfterTest state outcome = .coder := by
  unfold placeAfterTest
  split
  · exact Or.inl rfl
  · split
    · exact Or.inr (Or.inl rfl)
    · exact Or.inr (Or.inr rfl)

/-- The commit is reached through a passed run and in no other way. -/
theorem placeAfterTest_eq_queueManager {outcome : CargoOutcome} :
    placeAfterTest state outcome = .queueManager ↔ outcome.passed = true := by
  unfold placeAfterTest
  cases outcome.passed with
  | true => simp
  | false =>
      simp only [Bool.false_eq_true, if_false, iff_false]
      split <;> simp

/-- Giving up is decided on the counter as it was before the run. -/
theorem placeAfterTest_eq_giveUp {outcome : CargoOutcome} :
    placeAfterTest state outcome = .giveUp ↔
      outcome.passed = false ∧ maxTestRetries ≤ state.retryCount + 1 := by
  unfold placeAfterTest
  cases outcome.passed with
  | true => simp
  | false => simp

/-- The evaluator sees the state that the tester has just left. -/
theorem testEvaluator_afterTest (outcome : CargoOutcome) :
    (testEvaluator (afterTest state outcome)).place = placeAfterTest state outcome := by
  unfold testEvaluator afterTest placeAfterTest
  cases outcome.passed with
  | true => rfl
  | false =>
      simp only [Bool.false_eq_true, if_false]
      split <;> rfl

/-- The planner asks again until its draft is approved. -/
theorem planEvaluator_place :
    (planEvaluator state).place = .coder ∨ (planEvaluator state).place = .planner := by
  unfold planEvaluator
  split
  · exact Or.inl rfl
  · exact Or.inr rfl

/-- Without an approval the planner is next. -/
theorem planEvaluator_of_unapproved (hUnapproved : state.planApproved = false) :
    (planEvaluator state).place = .planner := by
  rw [planEvaluator, hUnapproved]
  rfl

/-- Where the router leads when it does not raise. -/
theorem coderRouter_place {route : Route} (hRoute : coderRouter state = some route) :
    route.place = .coderTools ∨ route.place = .tester := by
  unfold coderRouter at hRoute
  split at hRoute
  · cases hRoute
    split
    · exact Or.inr rfl
    · exact Or.inl rfl
  · cases hRoute

end Merge

variable {Id : Type} [DecidableEq Id] [Value Id]

/-- The state after the planner was told to go ahead with a draft. -/
def afterApproval (settings : Settings Id) (state : WorkflowState Id) (reply : String) :
    WorkflowState Id :=
  { state with
    planDraft := none
    planApproved := true
    planFeedback := none
    todoTasks := (parsePlan settings.safeLoad reply).1
    stepPlans := (parsePlan settings.safeLoad reply).2
    retryCount := 0
    toolCallCount := 0 }

/-- Approval: the reply becomes the plan and its tasks are queued. -/
theorem merge_approved (settings : Settings Id) (state : WorkflowState Id) {response : String}
    (hApproves : approves response = true) (reply : String) :
    state.merge (plannerUpdate settings reply response) = afterApproval settings state reply := by
  simp [plannerUpdate, hApproves, WorkflowState.merge, addMessages, afterApproval]

/-- No approval: draft and feedback are kept for the next request, and no task is queued. -/
theorem merge_revised (settings : Settings Id) (state : WorkflowState Id) {response : String}
    (hRejects : approves response = false) (reply : String) :
    state.merge (plannerUpdate settings reply response) =
      { state with planDraft := some reply, planFeedback := some response } := by
  simp [plannerUpdate, hRejects, WorkflowState.merge, addMessages]

/-- Without a task the queue manager changes nothing. -/
theorem merge_queueManagerNode_nil (settings : Settings Id) {state : WorkflowState Id}
    (hTodo : state.todoTasks = []) (gitStatus : String) :
    state.merge (queueManagerNode settings state gitStatus).1 = state := by
  have hUpdate : (queueManagerNode settings state gitStatus).1 = {} := by
    simp only [queueManagerNode, hTodo]
  rw [hUpdate, merge_empty]

/-- Otherwise the head is completed, whatever `git status` has printed. -/
theorem merge_queueManagerNode_cons (settings : Settings Id) {state : WorkflowState Id} {task : Id}
    {rest : List Id} (hTodo : state.todoTasks = task :: rest) (gitStatus : String) :
    state.merge (queueManagerNode settings state gitStatus).1 = afterTask state task rest := by
  simp [queueManagerNode, hTodo, WorkflowState.merge, afterTask]

/-- The moves of the graph, one for each way through a node and its router. -/
inductive Moves (settings : Settings Id) : Config Id → Input → Config Id → Prop where
  | draft (state : WorkflowState Id) (reply : String) :
      Moves settings ⟨.planner, state⟩ (.draft reply) ⟨.suspended reply, state⟩
  | approve (state : WorkflowState Id) (shown response reply : String)
      (hApproves : approves response = true) :
      Moves settings ⟨.suspended shown, state⟩ (.resume response reply)
        ⟨.coder, afterApproval settings state reply⟩
  | revise (state : WorkflowState Id) (shown response reply : String)
      (hRejects : approves response = false) :
      Moves settings ⟨.suspended shown, state⟩ (.resume response reply)
        ⟨(planEvaluator state).place,
          { state with planDraft := some reply, planFeedback := some response }⟩
  | coder (state : WorkflowState Id) (seedId : String) (response : AiMessage) (route : Route)
      (hRoute : coderRouter (afterCoder state settings seedId response) = some route) :
      Moves settings ⟨.coder, state⟩ (.coder seedId response)
        ⟨route.place, afterCoder state settings seedId response⟩
  | tools (state : WorkflowState Id) (results : List (String × String)) (update : Update Id)
      (hUpdate : toolNode state results = some update) :
      Moves settings ⟨.coderTools, state⟩ (.tools results)
        ⟨.coder, { state with messages := addMessages state.messages (update.messages.getD []) }⟩
  | test (state : WorkflowState Id) (outcome : CargoOutcome) :
      Moves settings ⟨.tester, state⟩ (.cargo outcome)
        ⟨placeAfterTest state outcome, afterTest state outcome⟩
  | emptyQueue (state : WorkflowState Id) (gitStatus : String) (hTodo : state.todoTasks = []) :
      Moves settings ⟨.queueManager, state⟩ (.gitStatus gitStatus) ⟨.finished, state⟩
  | nextTask (state : WorkflowState Id) (gitStatus : String) (task : Id) (rest : List Id)
      (hTodo : state.todoTasks = task :: rest) :
      Moves settings ⟨.queueManager, state⟩ (.gitStatus gitStatus)
        ⟨if rest.isEmpty then .finished else .coder, afterTask state task rest⟩
  | giveUp (state : WorkflowState Id) :
      Moves settings ⟨.giveUp, state⟩ .gitDiff ⟨.finished, state⟩

/-- Every step of the graph is one of the moves, with its guard and the state it leaves. All
invariants of runs are read off this list and do not open `step` again. -/
theorem moves_of_step {settings : Settings Id} {config next : Config Id} {input : Input}
    (hStep : step settings config input = some next) : Moves settings config input next := by
  obtain ⟨place, state⟩ := config
  unfold step at hStep
  dsimp only at hStep
  split at hStep
  · rw [plannerNode, execute_first] at hStep
    cases hStep
    exact Moves.draft state _
  · rename_i shown response reply
    rw [plannerNode, execute_again] at hStep
    cases hApproves : approves response with
    | true =>
        simp only [merge_approved settings state hApproves] at hStep
        cases hStep
        exact Moves.approve state shown response reply hApproves
    | false =>
        simp only [merge_revised settings state hApproves] at hStep
        cases hStep
        exact Moves.revise state shown response reply hApproves
  · rename_i seedId response
    rw [merge_coderNode, Option.map_eq_some_iff] at hStep
    obtain ⟨route, hRoute, rfl⟩ := hStep
    exact Moves.coder state seedId response route hRoute
  · rw [Option.map_eq_some_iff] at hStep
    obtain ⟨update, hUpdate, rfl⟩ := hStep
    rw [merge_toolNode state hUpdate]
    exact Moves.tools state _ update hUpdate
  · rename_i outcome
    rw [merge_testerNode, testEvaluator_afterTest] at hStep
    cases hStep
    exact Moves.test state outcome
  · rename_i gitStatus
    cases hTodo : state.todoTasks with
    | nil =>
        rw [merge_queueManagerNode_nil settings hTodo] at hStep
        simp only [queueEvaluator, hTodo, List.isEmpty_nil, if_true, Route.place] at hStep
        cases hStep
        exact Moves.emptyQueue state gitStatus hTodo
    | cons task rest =>
        rw [merge_queueManagerNode_cons settings hTodo] at hStep
        have hPlace : (queueEvaluator (afterTask state task rest)).place =
            if rest.isEmpty then .finished else .coder := by
          unfold queueEvaluator afterTask
          dsimp only
          split <;> rfl
        rw [hPlace] at hStep
        cases hStep
        exact Moves.nextTask state gitStatus task rest hTodo
  · rw [giveUpNode, merge_empty] at hStep
    cases hStep
    exact Moves.giveUp state
  · cases hStep

/-- The edges of the graph, with the planner's interrupt as a place of its own. -/
inductive Edge : Place → Place → Prop where
  | shows (draft : String) : Edge .planner (.suspended draft)
  | revises (draft : String) : Edge (.suspended draft) .planner
  | begins (draft : String) : Edge (.suspended draft) .coder
  | calls : Edge .coder .coderTools
  | submits : Edge .coder .tester
  | returns : Edge .coderTools .coder
  | passes : Edge .tester .queueManager
  | retries : Edge .tester .coder
  | fails : Edge .tester .giveUp
  | continues : Edge .queueManager .coder
  | completes : Edge .queueManager .finished
  | stops : Edge .giveUp .finished

/-- A step follows an edge. -/
theorem edge_of_step {settings : Settings Id} {config next : Config Id} {input : Input}
    (hStep : step settings config input = some next) : Edge config.place next.place := by
  cases moves_of_step hStep with
  | draft state reply => exact Edge.shows reply
  | approve state shown response reply hApproves => exact Edge.begins shown
  | revise state shown response reply hRejects =>
      rcases planEvaluator_place state with hCoder | hPlanner
      · rw [hCoder]
        exact Edge.begins shown
      · rw [hPlanner]
        exact Edge.revises shown
  | coder state seedId response route hRoute =>
      rcases coderRouter_place _ hRoute with hTools | hTester
      · rw [hTools]
        exact Edge.calls
      · rw [hTester]
        exact Edge.submits
  | tools state results update hUpdate => exact Edge.returns
  | test state outcome =>
      rcases placeAfterTest_cases state outcome with hPasses | hFails | hRetries
      · rw [hPasses]
        exact Edge.passes
      · rw [hFails]
        exact Edge.fails
      · rw [hRetries]
        exact Edge.retries
  | emptyQueue state gitStatus hTodo => exact Edge.completes
  | nextTask state gitStatus task rest hTodo =>
      cases rest with
      | nil => exact Edge.completes
      | cons second others => exact Edge.continues
  | giveUp state => exact Edge.stops

section Sources

variable {settings : Settings Id} {prev next : Config Id} {input : Input}

/-- A run comes to the prompt from the planner. -/
theorem planner_of_suspended {shown : String} (hStep : step settings prev input = some next)
    (hPlace : next.place = .suspended shown) : prev.place = .planner := by
  have hEdge := edge_of_step hStep
  rw [hPlace] at hEdge
  generalize prev.place = place at hEdge ⊢
  cases hEdge with
  | shows => rfl

/-- A run comes to the tool node from the coder. -/
theorem coder_of_tools (hStep : step settings prev input = some next)
    (hPlace : next.place = .coderTools) : prev.place = .coder := by
  have hEdge := edge_of_step hStep
  rw [hPlace] at hEdge
  generalize prev.place = place at hEdge ⊢
  cases hEdge with
  | calls => rfl

/-- A run comes to the commit and to giving up from the tester. -/
theorem tester_of_tested (hStep : step settings prev input = some next)
    (hPlace : next.place = .queueManager ∨ next.place = .giveUp) : prev.place = .tester := by
  have hEdge := edge_of_step hStep
  generalize prev.place = place at hEdge ⊢
  rcases hPlace with hPlace | hPlace
  · rw [hPlace] at hEdge
    cases hEdge with
    | passes => rfl
  · rw [hPlace] at hEdge
    cases hEdge with
    | fails => rfl

/-- A run ends through the queue manager or through giving up. -/
theorem place_of_finished (hStep : step settings prev input = some next)
    (hPlace : next.place = .finished) : prev.place = .queueManager ∨ prev.place = .giveUp := by
  have hEdge := edge_of_step hStep
  rw [hPlace] at hEdge
  generalize prev.place = place at hEdge ⊢
  cases hEdge with
  | completes => exact Or.inl rfl
  | stops => exact Or.inr rfl

end Sources

end Orchestrator
