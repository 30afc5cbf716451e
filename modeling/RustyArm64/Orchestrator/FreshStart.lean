import RustyArm64.Orchestrator.FailurePrompt
import RustyArm64.Orchestrator.Messages
import RustyArm64.Orchestrator.TaskConservation

/-! What is carried over. A round of revision has the reply and the feedback of the round
before it and nothing older, and a task has nothing of the one before it but the output
of its tests. -/
namespace Orchestrator

open Replay

section Revision

/-- The response and the reply of a resumed planner. -/
def Input.revision : Input → Option (String × String)
  | .resume userResponse reply => some (userResponse, reply)
  | _ => none

def lastRevision (inputs : List Input) : Option (String × String) :=
  (inputs.filterMap Input.revision).getLast?

/-- Only an answer at the prompt is a revision. -/
theorem lastRevision_kept (past : List Input) {input : Input} (hInput : input.revision = none) :
    lastRevision (past ++ [input]) = lastRevision past := by
  rw [lastRevision, List.filterMap_append, List.filterMap_cons_none hInput, List.filterMap_nil,
    List.append_nil, lastRevision]

theorem lastRevision_resume (past : List Input) (userResponse reply : String) :
    lastRevision (past ++ [.resume userResponse reply]) = some (userResponse, reply) := by
  rw [lastRevision, List.filterMap_append]
  exact List.getLast?_concat

/-- The state after rounds of revision of which this is the last one. -/
def revisedState (Id : Type) (goal : String) : Option (String × String) → WorkflowState Id
  | none => initialState Id goal
  | some (userResponse, reply) =>
    { initialState Id goal with planDraft := some reply, planFeedback := some userResponse }

/-- What the planner is asked to do after this round. -/
def revisionAsked : Option (String × String) → String
  | none => "Produce the initial plan draft."
  | some (userResponse, reply) =>
    (if reply = "" then "" else "Previous plan draft:\n" ++ reply ++ "\n\n") ++
      if userResponse = "" then "Produce the initial plan draft."
      else "Human feedback:\n" ++ userResponse ++ "\n\nRevise the plan accordingly."

variable {Id : Type} [DecidableEq Id] [Value Id]

omit [DecidableEq Id] [Value Id] in
/-- One more answer that does not approve replaces the draft and the feedback, and nothing
else is kept of the earlier ones. -/
theorem revisedState_revise (goal : String) (revision? : Option (String × String))
    (userResponse reply : String) :
    { revisedState Id goal revision? with
      planDraft := some reply, planFeedback := some userResponse } =
      revisedState Id goal (some (userResponse, reply)) := by
  rcases revision? with _ | ⟨_, _⟩ <;> rfl

/-- Before an approval the state is the initial one, but for the last revision. -/
theorem state_of_unapproved {settings : Settings Id} {goal : String} {inputs : List Input}
    {config : Config Id} (hRun : runOf settings goal inputs = some config)
    (hPlace : config.place.executes = false) :
    config.state = revisedState Id goal (lastRevision inputs) := by
  refine replay_history (fun inputs config => config.place.executes = false →
    config.state = revisedState Id goal (lastRevision inputs)) (fun _ => rfl) ?_ hRun hPlace
  intro past config input next hPast hState hStep hNext
  cases moves_of_step hStep with
  | draft state reply =>
      rw [lastRevision_kept past rfl]
      exact hState rfl
  | revise state shown response reply hRejects =>
      rw [lastRevision_resume, ← revisedState_revise goal (lastRevision past), ← hState rfl]
  | coder state seedId response route hRoute =>
      rcases coderRouter_place _ hRoute with hTools | hTester
      · rw [hTools] at hNext
        cases hNext
      · rw [hTester] at hNext
        cases hNext
  | test state outcome =>
      rcases placeAfterTest_cases state outcome with hPasses | hFails | hRetries
      · rw [hPasses] at hNext
        cases hNext
      · rw [hFails] at hNext
        cases hNext
      · rw [hRetries] at hNext
        cases hNext
  | nextTask state gitStatus task rest hTodo =>
      cases rest with
      | nil => cases hNext
      | cons second others => cases hNext
  | approve => cases hNext
  | tools => cases hNext
  | emptyQueue => cases hNext
  | giveUp => cases hNext

/-- The planner is asked to revise the reply of the last round with the feedback of that
round. What was said before is not in the request. -/
theorem planner_is_asked {settings : Settings Id} {goal : String} {inputs : List Input}
    {config : Config Id} (hRun : runOf settings goal inputs = some config)
    (hPlace : config.place.executes = false) :
    plannerRequest settings config.state =
      [⟨none, .system settings.plannerPrompt⟩,
        ⟨none, .human ("Goal: " ++ goal ++ "\n\n" ++ "Architecture Spec:\n" ++
          (initialState Id goal).architectureSpec ++ "\n\n" ++
          revisionAsked (lastRevision inputs))⟩] := by
  rw [state_of_unapproved hRun hPlace]
  unfold plannerRequest revisedState revisionAsked
  rcases lastRevision inputs with _ | ⟨userResponse, reply⟩
  · dsimp only [initialState]
    rw [String.append_empty]
  · have hGoal : (initialState Id goal).goal = goal := rfl
    dsimp only
    by_cases hReply : reply = ""
    · by_cases hResponse : userResponse = ""
      · simp [hGoal, hReply, hResponse, String.append_assoc]
      · simp [hGoal, hReply, hResponse, String.append_assoc]
    · by_cases hResponse : userResponse = ""
      · simp [hGoal, hReply, hResponse, String.append_assoc]
      · simp [hGoal, hReply, hResponse, String.append_assoc]

/-- A plan was shown, and the user wanted another one. -/
def planRevised : Config String :=
  ⟨.planner, revisedState String "goal" (some ("no", "id: a"))⟩

theorem planRevised_run :
    runOf idLineSettings "goal" [.draft "id: a", .resume "no" "id: a"] = some planRevised := by
  decide +kernel

theorem planner_is_asked_planRevised :
    plannerRequest idLineSettings planRevised.state =
      [⟨none, .system idLineSettings.plannerPrompt⟩,
        ⟨none, .human ("Goal: " ++ "goal" ++ "\n\n" ++ "Architecture Spec:\n" ++
          (initialState String "goal").architectureSpec ++ "\n\n" ++
          revisionAsked (lastRevision [.draft "id: a", .resume "no" "id: a"]))⟩] :=
  planner_is_asked planRevised_run rfl

end Revision

section FirstRequest

variable {Id : Type} [DecidableEq Id] [Value Id]

/-- The state in which a task begins. -/
structure CleanTask (state : WorkflowState Id) : Prop where
  messages : state.messages = []
  retryCount : state.retryCount = 0
  toolCallCount : state.toolCallCount = 0
  testsPassed : state.testsPassed = false

/-- The first request of a task is its plan, and the output of the tests before it. -/
theorem CleanTask.coderRequest_eq {state : WorkflowState Id} (h : CleanTask state)
    (settings : Settings Id) :
    coderRequest settings state =
      [⟨none, .system (promptHead state settings.baseSystemPrompt ++
        if state.testResults = "" then "" else failureBlock state.testResults)⟩, beginMessage] := by
  have hHistory : coderHistory settings state = [] := by
    simp [coderHistory, sanitizeHistory, h.messages]
  have hPrompt : buildSystemPrompt state settings.baseSystemPrompt =
      promptHead state settings.baseSystemPrompt ++
        if state.testResults = "" then "" else failureBlock state.testResults := by
    by_cases hResults : state.testResults = ""
    · simp [buildSystemPrompt, hResults]
    · simp [buildSystemPrompt, hResults, h.testsPassed]
  simp only [coderRequest, hHistory, hPrompt, if_true]

omit [DecidableEq Id] [Value Id] in
/-- Before the approval there is no message, so the coder starts with none. -/
theorem revisedState_messages (goal : String) (revision? : Option (String × String)) :
    (revisedState Id goal revision?).messages = [] := by
  rcases revision? with _ | ⟨_, _⟩ <;> rfl

/-- An approval follows rounds of revision only, in which nothing is tested. -/
theorem cleanTask_of_approval {settings : Settings Id} {goal shown : String} {past : List Input}
    {state : WorkflowState Id} (hPast : runOf settings goal past = some ⟨.suspended shown, state⟩)
    (reply : String) :
    CleanTask (afterApproval settings state reply) ∧
      (afterApproval settings state reply).testResults = "" := by
  have hState : state = _ := state_of_unapproved hPast rfl
  obtain ⟨hPassed, hResults⟩ := (unapproved_of_suspended hPast).untested
  refine ⟨⟨?_, rfl, rfl, hPassed⟩, hResults⟩
  change state.messages = []
  rw [hState, revisedState_messages]

/-- The queue manager has a passing test behind it. -/
theorem exists_passing_test {settings : Settings Id} {goal : String} {past : List Input}
    {state : WorkflowState Id} (hPast : runOf settings goal past = some ⟨.queueManager, state⟩) :
    ∃ earlier stdout stderr, past = earlier ++ [.cargo (.exited 0 stdout stderr)] ∧
      state.testResults = "Tests passed successfully.\n" ++ stdout := by
  obtain ⟨earlier, outcome, tested, rfl, -, hConfig⟩ := tested_of_run hPast (Or.inl rfl)
  obtain ⟨hPlace, hState⟩ := Config.mk.inj hConfig
  obtain ⟨stdout, stderr, rfl⟩ :=
    exited_of_passed ((placeAfterTest_eq_queueManager tested).mp hPlace.symm)
  refine ⟨earlier, stdout, stderr, rfl, ?_⟩
  rw [hState]
  rfl

/-- The first task begins after no test, and any other one after a test that passed. What
that test printed is then called a failure. -/
theorem task_starts_clean {settings : Settings Id} {goal : String} {past : List Input}
    {input : Input} {state : WorkflowState Id}
    (hRun : runOf settings goal (past ++ [input]) = some ⟨.coder, state⟩)
    (hInput : input.toPlanner = true ∨ ∃ stdout, input = .gitStatus stdout) :
    CleanTask state ∧
    (input.toPlanner = true → coderRequest settings state =
      [⟨none, .system (promptHead state settings.baseSystemPrompt)⟩, beginMessage]) ∧
    (∀ stdout, input = .gitStatus stdout → ∃ earlier testOut testErr,
      past = earlier ++ [.cargo (.exited 0 testOut testErr)] ∧
      coderRequest settings state =
        [⟨none, .system (promptHead state settings.baseSystemPrompt ++
          failureBlock ("Tests passed successfully.\n" ++ testOut))⟩, beginMessage]) := by
  obtain ⟨prev, hPast, hStep⟩ := replay_snoc_eq_some.mp hRun
  generalize hNext : (⟨.coder, state⟩ : Config Id) = next at hStep
  cases moves_of_step hStep with
  | approve before shown response reply hApproves =>
      obtain ⟨-, rfl⟩ := Config.mk.inj hNext
      obtain ⟨hClean, hResults⟩ := cleanTask_of_approval hPast reply
      refine ⟨hClean, fun _ => ?_, fun stdout hStdout => nomatch hStdout⟩
      rw [hClean.coderRequest_eq, hResults, if_pos rfl, String.append_empty]
  | nextTask before gitStatus task rest hTodo =>
      obtain ⟨-, rfl⟩ := Config.mk.inj hNext
      have hClean : CleanTask (afterTask before task rest) :=
        ⟨afterTask_messages before task rest, rfl, rfl, rfl⟩
      obtain ⟨earlier, testOut, testErr, hEarlier, hResults⟩ := exists_passing_test hPast
      have hSame : (afterTask before task rest).testResults = before.testResults := rfl
      have hSome : "Tests passed successfully.\n" ++ testOut ≠ "" := by
        simp
      refine ⟨hClean, fun hPlanner => absurd hPlanner Bool.false_ne_true, fun stdout _ =>
        ⟨earlier, testOut, testErr, hEarlier, ?_⟩⟩
      rw [hClean.coderRequest_eq, hSame, hResults, if_neg hSome]
  | revise before shown response reply hRejects =>
      rw [planEvaluator_of_suspended hPast] at hNext
      cases hNext
  | draft => cases hNext
  | emptyQueue => cases hNext
  | giveUp => cases hNext
  | coder => simp [Input.toPlanner] at hInput
  | tools => simp [Input.toPlanner] at hInput
  | test => simp [Input.toPlanner] at hInput

/-- All inputs of the first task but the one that ends it. -/
def firstTaskTested : List Input :=
  [.draft "id: a\n---\nid: b", .resume "yes" "id: a\n---\nid: b",
    .coder "m0" ⟨"m1", "Done.", []⟩, .cargo (.exited 0 "ok" "")]

theorem firstTaskTested_run :
    runOf idLineSettings "goal" (firstTaskTested ++ [.gitStatus ""]) =
      some ⟨.coder, secondTask⟩ := by
  decide +kernel

theorem task_starts_clean_secondTask :
    CleanTask secondTask ∧
    ((Input.gitStatus "").toPlanner = true → coderRequest idLineSettings secondTask =
      [⟨none, .system (promptHead secondTask idLineSettings.baseSystemPrompt)⟩, beginMessage]) ∧
    (∀ stdout, Input.gitStatus "" = .gitStatus stdout → ∃ earlier testOut testErr,
      firstTaskTested = earlier ++ [.cargo (.exited 0 testOut testErr)] ∧
      coderRequest idLineSettings secondTask =
        [⟨none, .system (promptHead secondTask idLineSettings.baseSystemPrompt ++
          failureBlock ("Tests passed successfully.\n" ++ testOut))⟩, beginMessage]) :=
  task_starts_clean firstTaskTested_run (Or.inr ⟨"", rfl⟩)

end FirstRequest

end Orchestrator
