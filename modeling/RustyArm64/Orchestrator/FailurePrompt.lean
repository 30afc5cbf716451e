import RustyArm64.Orchestrator.PlanApproval

/-! When the coder's prompt quotes a failed test run, against the test runs that
the current task has really had. -/
namespace Orchestrator

open Replay

/-- The last test run since the head of the queue last changed, as one more input
arrives. The planner and the queue manager change the head. -/
def noteTest (seen : Option CargoOutcome) : Input → Option CargoOutcome
  | .cargo outcome => some outcome
  | .resume _ _ => none
  | .gitStatus _ => none
  | _ => seen

/-- The last test run that the current head task has had. -/
def lastTest (inputs : List Input) : Option CargoOutcome := inputs.foldl noteTest none

theorem lastTest_snoc (inputs : List Input) (input : Input) :
    lastTest (inputs ++ [input]) = noteTest (lastTest inputs) input := by
  rw [lastTest, List.foldl_append]
  rfl

theorem append_ne_empty {text : String} (h : text ≠ "") (rest : String) : text ++ rest ≠ "" := by
  intro hEmpty
  rw [String.append_eq_empty_iff] at hEmpty
  exact h hEmpty.1

/-- Every test run leaves a text in `test_results`, even one without output. -/
theorem report_ne_empty (outcome : CargoOutcome) : outcome.report ≠ "" := by
  cases outcome with
  | exited returncode stdout stderr =>
      unfold CargoOutcome.report
      dsimp only
      split
      · exact append_ne_empty (by decide) stdout
      · exact append_ne_empty (append_ne_empty (append_ne_empty (by decide) stdout) _) stderr
  | raised message => exact append_ne_empty (by decide) message

theorem failureBlock_ne_empty (testResults : String) : failureBlock testResults ≠ "" :=
  append_ne_empty (by decide) testResults

section Record

variable {Id : Type}

/-- What the state keeps of test runs while a task is worked on. An untested task
that is not the first inherits the output of its predecessor's last run. -/
structure Working (inputs : List Input) (state : WorkflowState Id) : Prop where
  notPassed : state.testsPassed = false
  untested : lastTest inputs = none → state.retryCount = 0 ∧
    (state.testResults = "" ↔ state.completedTasks = [])
  tested : ∀ outcome, lastTest inputs = some outcome →
    outcome.passed = false ∧ state.retryCount ≠ 0 ∧ state.testResults = outcome.report

/-- The invariant behind the prompt, by place. -/
def TestRecord (inputs : List Input) (config : Config Id) : Prop :=
  match config.place with
  | .coder | .coderTools | .tester => Working inputs config.state
  | .queueManager => config.state.testResults ≠ ""
  | _ => True

/-- An input that neither tests nor changes the queue keeps the record. -/
theorem Working.keep {past : List Input} {state next : WorkflowState Id} {input : Input}
    (h : Working past state) (hInput : noteTest (lastTest past) input = lastTest past)
    (hPassed : next.testsPassed = state.testsPassed) (hRetry : next.retryCount = state.retryCount)
    (hResults : next.testResults = state.testResults)
    (hCompleted : next.completedTasks = state.completedTasks) :
    Working (past ++ [input]) next where
  notPassed := by rw [hPassed, h.notPassed]
  untested := by
    rw [lastTest_snoc, hInput, hRetry, hResults, hCompleted]
    exact h.untested
  tested := by
    rw [lastTest_snoc, hInput, hRetry, hResults]
    exact h.tested

/-- A new head task has not been tested. -/
theorem Working.of_newHead {past : List Input} {state : WorkflowState Id} {input : Input}
    (hInput : noteTest (lastTest past) input = none) (hPassed : state.testsPassed = false)
    (hRetry : state.retryCount = 0)
    (hResults : state.testResults = "" ↔ state.completedTasks = []) :
    Working (past ++ [input]) state where
  notPassed := hPassed
  untested := fun _ => ⟨hRetry, hResults⟩
  tested := by
    intro outcome hTest
    rw [lastTest_snoc, hInput] at hTest
    cases hTest

/-- After a failed run the coder works on the task that the run was for. -/
theorem Working.of_failure (past : List Input) (state : WorkflowState Id) {outcome : CargoOutcome}
    (hFailed : outcome.passed = false) :
    Working (past ++ [.cargo outcome]) (afterTest state outcome) where
  notPassed := hFailed
  untested := by
    intro hTest
    rw [lastTest_snoc] at hTest
    cases hTest
  tested := by
    intro other hTest
    rw [lastTest_snoc] at hTest
    cases hTest
    refine ⟨hFailed, ?_, rfl⟩
    rw [afterTest, hFailed]
    exact Nat.succ_ne_zero _

end Record

variable {Id : Type} [DecidableEq Id] [Value Id]

/-- The prompt has the failure block exactly if the current task has been tested
and its last test run failed, and the block quotes that run. -/
def PromptLaw (settings : Settings Id) (inputs : List Input) (state : WorkflowState Id) : Prop :=
  buildSystemPrompt state settings.baseSystemPrompt =
    promptHead state settings.baseSystemPrompt ++
      match lastTest inputs with
      | some outcome => if outcome.passed then "" else failureBlock outcome.report
      | none => ""

/-- One step keeps the record of the last test run, over every branch of the graph. -/
theorem TestRecord.step {settings : Settings Id} {goal : String} {past : List Input}
    {config next : Config Id} {input : Input} (hRun : runOf settings goal past = some config)
    (h : TestRecord past config) (hStep : Orchestrator.step settings config input = some next) :
    TestRecord (past ++ [input]) next := by
  cases moves_of_step hStep with
  | draft state reply => trivial
  | approve state shown response reply hApproves =>
      obtain ⟨-, hCompleted, ⟨hPassed, hResults⟩, -⟩ := unapproved_of_suspended hRun
      exact Working.of_newHead rfl hPassed rfl (iff_of_true hResults hCompleted)
  | revise state shown response reply hRejects =>
      rw [planEvaluator_of_suspended hRun]
      trivial
  | coder state seedId response route hRoute =>
      have hNext : Working (past ++ [.coder seedId response])
          (afterCoder state settings seedId response) := Working.keep h rfl rfl rfl rfl rfl
      rcases coderRouter_place _ hRoute with hTools | hTester
      · rw [hTools]
        exact hNext
      · rw [hTester]
        exact hNext
  | tools state results update hUpdate => exact Working.keep h rfl rfl rfl rfl rfl
  | test state outcome =>
      unfold placeAfterTest
      cases hPassed : outcome.passed with
      | true => exact report_ne_empty outcome
      | false =>
          simp only [Bool.false_eq_true, if_false]
          split
          · trivial
          · exact Working.of_failure past state hPassed
  | emptyQueue state gitStatus hTodo => trivial
  | nextTask state gitStatus task rest hTodo =>
      cases rest with
      | nil => trivial
      | cons second others =>
          -- The queue manager keeps the output of the passing run.
          exact Working.of_newHead rfl rfl rfl (iff_of_false h (by simp [afterTask]))
  | giveUp state => trivial

/-- The record holds after every run, approved or not. -/
theorem testRecord_of_run {settings : Settings Id} {goal : String} {inputs : List Input}
    {config : Config Id} (hRun : runOf settings goal inputs = some config) :
    TestRecord inputs config := by
  refine replay_history TestRecord ?_ ?_ hRun
  · trivial
  · intro past config input next hPast h hStep
    exact h.step hPast hStep

/-- At every call of the coder: the prompt obeys the law exactly if no task has
been completed yet or the current task has already failed a test run. Otherwise
the prompt quotes the passing run of the previous task as a failed one. -/
theorem prompt_law_iff (settings : Settings Id) (goal : String) (inputs : List Input)
    (config : Config Id) (hRun : runOf settings goal inputs = some config)
    (hPlace : config.place = .coder) :
    PromptLaw settings inputs config.state ↔
      config.state.completedTasks = [] ∨ config.state.retryCount ≠ 0 := by
  have hRecord := testRecord_of_run hRun
  rw [TestRecord, hPlace] at hRecord
  obtain ⟨hNotPassed, hUntested, hTested⟩ := hRecord
  unfold PromptLaw buildSystemPrompt
  cases hLast : lastTest inputs with
  | some outcome =>
      obtain ⟨hFailed, hRetry, hResults⟩ := hTested outcome hLast
      refine iff_of_true ?_ (Or.inr hRetry)
      simp [hFailed, hResults, hNotPassed, report_ne_empty]
  | none =>
      obtain ⟨hRetry, hResults⟩ := hUntested hLast
      by_cases hFirst : config.state.completedTasks = []
      · refine iff_of_true ?_ (Or.inl hFirst)
        simp [hResults.mpr hFirst]
      · refine iff_of_false ?_ (by simp [hFirst, hRetry])
        have hStale : config.state.testResults ≠ "" := mt hResults.mp hFirst
        simp [hStale, hNotPassed, failureBlock_ne_empty]

/-- Two tasks are approved, and the first one passes its tests at once. -/
def firstTaskPasses : List Input :=
  [.draft "id: a\n---\nid: b", .resume "yes" "id: a\n---\nid: b",
    .coder "m0" ⟨"m1", "Done.", []⟩, .cargo (.exited 0 "ok" ""), .gitStatus ""]

def secondTask : WorkflowState String :=
  let approved := afterApproval idLineSettings (initialState String "goal") "id: a\n---\nid: b"
  let coded := afterCoder approved idLineSettings "m0" ⟨"m1", "Done.", []⟩
  afterTask (afterTest coded (.exited 0 "ok" "")) "a" ["b"]

theorem firstTaskPasses_run :
    runOf idLineSettings "goal" firstTaskPasses = some ⟨.coder, secondTask⟩ := by
  decide +kernel

theorem prompt_law_iff_secondTask :
    PromptLaw idLineSettings firstTaskPasses secondTask ↔
      secondTask.completedTasks = [] ∨ secondTask.retryCount ≠ 0 :=
  prompt_law_iff idLineSettings "goal" firstTaskPasses ⟨.coder, secondTask⟩ firstTaskPasses_run rfl

/-- The coder's first prompt for the second task quotes the passing run of the
first one as a failed run. -/
theorem prompt_quotes_passing_run :
    runOf idLineSettings "goal" firstTaskPasses = some ⟨.coder, secondTask⟩ ∧
    lastTest firstTaskPasses = none ∧
    buildSystemPrompt secondTask idLineSettings.baseSystemPrompt =
      promptHead secondTask idLineSettings.baseSystemPrompt ++
      "\n\nPrevious test run FAILED — you must fix these errors:\nTests passed successfully.\nok" ∧
    ¬PromptLaw idLineSettings firstTaskPasses secondTask := by
  refine ⟨firstTaskPasses_run, rfl, by decide +kernel, ?_⟩
  unfold PromptLaw
  decide +kernel

end Orchestrator
