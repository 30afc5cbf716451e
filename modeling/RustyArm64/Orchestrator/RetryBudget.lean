import RustyArm64.Orchestrator.HeadTask

/-! The retry counter against the test runs that the head task has really had,
and the number of test runs of a whole run. -/
namespace Orchestrator

open Replay

def Input.isTest : Input → Bool
  | .cargo _ => true
  | _ => false

/-- The failed test runs of the head task, and whether one has passed. -/
structure HeadTests where
  failures : Nat
  passed : Bool
  deriving DecidableEq, Repr

variable {Id : Type}

def noteOutcome (seen : HeadTests) (input : Input) (_ : Config Id) : HeadTests :=
  match input with
  | .cargo outcome =>
    if outcome.passed then { seen with passed := true }
    else { seen with failures := seen.failures + 1 }
  | _ => seen

/-- A pass sets the mark and a failure counts. A pass does not undo failures here, although
the counter of the program starts again. -/
theorem noteOutcome_cargo (seen : HeadTests) (outcome : CargoOutcome) (next : Config Id) :
    noteOutcome seen (.cargo outcome) next =
      if outcome.passed then { seen with passed := true }
      else { seen with failures := seen.failures + 1 } := rfl

/-- The value that the retry counter has. A passed test run clears it. -/
def HeadTests.retries (seen : HeadTests) : Nat := if seen.passed then 0 else seen.failures

/-- The invariant behind the retry counter and the number of test runs, by place. -/
def RetryRecord (tests : Nat) (seen : HeadTests) (config : Config Id) : Prop :=
  config.state.retryCount = seen.retries ∧
  match config.place with
  | .planner | .suspended _ => seen = ⟨0, false⟩ ∧ tests = 0
  | .coder | .coderTools | .tester => seen.passed = false ∧ seen.failures < maxTestRetries ∧
      tests ≤ maxTestRetries * config.state.completedTasks.length + seen.failures
  | .queueManager => seen.passed = true ∧ seen.failures < maxTestRetries ∧
      tests ≤ maxTestRetries * (config.state.completedTasks.length + 1)
  | .giveUp => seen.passed = false ∧ seen.failures = maxTestRetries ∧
      tests ≤ maxTestRetries * (config.state.completedTasks.length + 1)
  | .finished => seen.failures ≤ maxTestRetries ∧ tests ≤ maxTestRetries *
      max 1 (config.state.completedTasks ++ config.state.todoTasks).length

section Moves

variable {tests : Nat} {seen : HeadTests} {state : WorkflowState Id}

/-- Neither the coder nor its tools touch anything that the record is about. -/
theorem RetryRecord.work {place : Place} {next : WorkflowState Id}
    (h : RetryRecord tests seen ⟨.coder, state⟩)
    (hPlace : place = .coder ∨ place = .coderTools ∨ place = .tester)
    (hRetry : next.retryCount = state.retryCount)
    (hCompleted : next.completedTasks = state.completedTasks) :
    RetryRecord tests seen ⟨place, next⟩ := by
  obtain ⟨hCount, hWorking⟩ := h
  refine ⟨hRetry.trans hCount, ?_⟩
  dsimp only at hWorking ⊢
  rw [hCompleted]
  rcases hPlace with rfl | rfl | rfl <;> exact hWorking

/-- A passing test run clears the counter, and a failing one adds to it until it
has reached the limit. -/
theorem RetryRecord.test (h : RetryRecord tests seen ⟨.tester, state⟩) (outcome : CargoOutcome) :
    RetryRecord (tests + 1) (noteOutcome seen (.cargo outcome) ⟨placeAfterTest state outcome,
      afterTest state outcome⟩) ⟨placeAfterTest state outcome, afterTest state outcome⟩ := by
  obtain ⟨hCount, hPassed, hFailures, hTests⟩ := h
  rw [HeadTests.retries, hPassed] at hCount
  change state.retryCount = seen.failures at hCount
  have hMul : maxTestRetries * (state.completedTasks.length + 1) =
      maxTestRetries * state.completedTasks.length + maxTestRetries := Nat.mul_succ _ _
  dsimp only at hTests
  rw [noteOutcome_cargo]
  unfold RetryRecord placeAfterTest afterTest
  cases outcome.passed with
  | true =>
      refine ⟨rfl, rfl, hFailures, ?_⟩
      dsimp only
      omega
  | false =>
      have hRetries : HeadTests.retries ⟨seen.failures + 1, seen.passed⟩ = seen.failures + 1 := by
        rw [HeadTests.retries, hPassed]
        rfl
      simp only [Bool.false_eq_true, if_false]
      rw [hRetries, hCount]
      by_cases hLimit : seen.failures + 1 ≥ maxTestRetries
      · rw [if_pos hLimit]
        exact ⟨rfl, hPassed, by omega, by omega⟩
      · rw [if_neg hLimit]
        exact ⟨rfl, hPassed, by omega, by omega⟩

/-- The run ends. -/
theorem RetryRecord.finish {place : Place} (h : RetryRecord tests seen ⟨place, state⟩)
    (hPlace : place = .queueManager ∨ place = .giveUp)
    (hRoom : state.completedTasks.length + 1 ≤
      max 1 (state.completedTasks ++ state.todoTasks).length) :
    RetryRecord tests seen ⟨.finished, state⟩ := by
  obtain ⟨hCount, hPrior⟩ := h
  have hMul := Nat.mul_le_mul_left maxTestRetries hRoom
  refine ⟨hCount, ?_⟩
  rcases hPlace with rfl | rfl
  · obtain ⟨-, hFailures, hTests⟩ := hPrior
    exact ⟨Nat.le_of_lt hFailures, Nat.le_trans hTests hMul⟩
  · obtain ⟨-, hFailures, hTests⟩ := hPrior
    exact ⟨Nat.le_of_eq hFailures, Nat.le_trans hTests hMul⟩

/-- The next task starts with a clean record, whatever the last one has used. -/
theorem RetryRecord.nextTask {task : Id} {rest : List Id}
    (h : RetryRecord tests seen ⟨.queueManager, state⟩) :
    RetryRecord tests ⟨0, false⟩
      ⟨if rest.isEmpty then .finished else .coder, afterTask state task rest⟩ := by
  obtain ⟨-, -, -, hTests⟩ := h
  have hCompleted : (afterTask state task rest).completedTasks.length =
      state.completedTasks.length + 1 := by simp [afterTask]
  refine ⟨rfl, ?_⟩
  cases rest with
  | nil =>
      have hTodo : (afterTask state task []).todoTasks = [] := rfl
      refine ⟨Nat.zero_le _, ?_⟩
      dsimp only
      rw [hTodo, List.append_nil, hCompleted]
      exact Nat.le_trans hTests (Nat.mul_le_mul_left _ (Nat.le_max_right 1 _))
  | cons second others =>
      refine ⟨rfl, by decide, ?_⟩
      dsimp only
      rw [hCompleted]
      exact hTests

/-- A task has no more failures than allowed. -/
theorem RetryRecord.failures_le {config : Config Id} (h : RetryRecord tests seen config) :
    seen.failures ≤ maxTestRetries := by
  obtain ⟨place, state⟩ := config
  obtain ⟨-, h⟩ := h
  cases place with
  | planner => exact h.1 ▸ Nat.zero_le _
  | suspended => exact h.1 ▸ Nat.zero_le _
  | coder => exact Nat.le_of_lt h.2.1
  | coderTools => exact Nat.le_of_lt h.2.1
  | tester => exact Nat.le_of_lt h.2.1
  | queueManager => exact Nat.le_of_lt h.2.1
  | giveUp => exact Nat.le_of_eq h.2.1
  | finished => exact h.1

theorem RetryRecord.retryCount_le {config : Config Id} (h : RetryRecord tests seen config) :
    config.state.retryCount ≤ maxTestRetries := by
  have hFailures := h.failures_le
  rw [h.1, HeadTests.retries]
  split
  · exact Nat.zero_le _
  · exact hFailures

/-- Before the end the tests fit into the completed tasks and the one worked on. -/
theorem RetryRecord.tests_le {config : Config Id} (h : RetryRecord tests seen config)
    (hRoom : config.place.executes = true → config.place ≠ .finished →
      config.state.completedTasks.length + 1 ≤
        max 1 (config.state.completedTasks ++ config.state.todoTasks).length) :
    tests ≤ maxTestRetries *
      max 1 (config.state.completedTasks ++ config.state.todoTasks).length := by
  obtain ⟨place, state⟩ := config
  have hFailures := h.failures_le
  obtain ⟨-, h⟩ := h
  have hMul : maxTestRetries * (state.completedTasks.length + 1) =
      maxTestRetries * state.completedTasks.length + maxTestRetries := Nat.mul_succ _ _
  have hFit (hExecutes : place.executes = true) (hBusy : place ≠ .finished)
      (hTests : tests ≤ maxTestRetries * (state.completedTasks.length + 1)) :=
    Nat.le_trans hTests (Nat.mul_le_mul_left maxTestRetries (hRoom hExecutes hBusy))
  have hWork (hTests : tests ≤ maxTestRetries * state.completedTasks.length + seen.failures) :
      tests ≤ maxTestRetries * (state.completedTasks.length + 1) := by omega
  cases place with
  | planner => exact h.2 ▸ Nat.zero_le _
  | suspended => exact h.2 ▸ Nat.zero_le _
  | coder => exact hFit rfl Place.noConfusion (hWork h.2.2)
  | coderTools => exact hFit rfl Place.noConfusion (hWork h.2.2)
  | tester => exact hFit rfl Place.noConfusion (hWork h.2.2)
  | queueManager => exact hFit rfl Place.noConfusion h.2.2
  | giveUp => exact hFit rfl Place.noConfusion h.2.2
  | finished => exact h.2

end Moves

variable [DecidableEq Id] [Value Id]

/-- The test runs of the head task. -/
def headTests (settings : Settings Id) (goal : String) (inputs : List Input) : HeadTests :=
  sinceHead settings goal ⟨0, false⟩ noteOutcome inputs

/-- One step keeps the record that ties the counter to the outcomes seen. -/
theorem RetryRecord.step {settings : Settings Id} {goal : String} {past : List Input}
    {config next : Config Id} {input : Input} (hRun : runOf settings goal past = some config)
    (h : RetryRecord (past.countP Input.isTest) (headTests settings goal past) config)
    (hStep : Orchestrator.step settings config input = some next) :
    RetryRecord ((past ++ [input]).countP Input.isTest) (headTests settings goal (past ++ [input]))
      next := by
  have hTests : (past ++ [input]).countP Input.isTest =
      past.countP Input.isTest + if input.isTest then 1 else 0 := by
    rw [List.countP_append, List.countP_singleton]
  have hKept : ¬HeadChanged config next → headTests settings goal (past ++ [input]) =
      noteOutcome (headTests settings goal past) input next := sinceHead_kept _ _ hRun hStep
  have hChanged : HeadChanged config next → headTests settings goal (past ++ [input]) =
      ⟨0, false⟩ := sinceHead_changed _ _ hRun hStep
  rw [hTests]
  cases moves_of_step hStep with
  | draft state reply =>
      rw [hKept (not_headChanged rfl rfl)]
      exact h
  | approve state shown response reply hApproves =>
      rw [hChanged (headChanged_approve hRun reply)]
      obtain ⟨-, -, hNone⟩ := h
      refine ⟨rfl, rfl, by decide, ?_⟩
      change past.countP Input.isTest + 0 ≤ _
      omega
  | revise state shown response reply hRejects =>
      rw [hKept (not_headChanged rfl rfl), planEvaluator_of_suspended hRun]
      exact h
  | coder state seedId response route hRoute =>
      rw [hKept (not_headChanged rfl rfl)]
      exact h.work (Or.inr (coderRouter_place _ hRoute)) rfl rfl
  | tools state results update hUpdate =>
      rw [hKept (not_headChanged rfl rfl)]
      exact h
  | test state outcome =>
      rw [hKept (not_headChanged rfl rfl)]
      exact h.test outcome
  | emptyQueue state gitStatus hTodo =>
      rw [hKept (not_headChanged rfl rfl)]
      exact h.finish (Or.inl rfl) (room_of_run hRun rfl Place.noConfusion)
  | nextTask state gitStatus task rest hTodo =>
      rw [hChanged (headChanged_nextTask state task rest _)]
      exact h.nextTask
  | giveUp state =>
      rw [hKept (not_headChanged rfl rfl)]
      exact h.finish (Or.inr rfl) (room_of_run hRun rfl Place.noConfusion)

/-- The record holds after every run. -/
theorem retryRecord_of_run {settings : Settings Id} {goal : String} {inputs : List Input}
    {config : Config Id} (hRun : runOf settings goal inputs = some config) :
    RetryRecord (inputs.countP Input.isTest) (headTests settings goal inputs) config := by
  refine replay_history (fun inputs config =>
    RetryRecord (inputs.countP Input.isTest) (headTests settings goal inputs) config) ?_ ?_ hRun
  · exact ⟨rfl, rfl, rfl⟩
  · intro past config input next hPast h hStep
    exact h.step hPast hStep

/-- Nothing follows the end of a run. -/
theorem replay_finished {settings : Settings Id} {state : WorkflowState Id} {inputs : List Input}
    {config : Config Id} (h : replay (step settings) ⟨.finished, state⟩ inputs = some config) :
    inputs = [] := by
  cases inputs with
  | nil => rfl
  | cons input rest => cases h

/-- The run has come to give_up. -/
def GaveUp (settings : Settings Id) (goal : String) (inputs : List Input) : Prop :=
  ∃ past later state, inputs = past ++ later ∧ runOf settings goal past = some ⟨.giveUp, state⟩

/-- A run that gave up has seen the allowed failures for this task, and no pass. -/
theorem headTests_of_gaveUp {settings : Settings Id} {goal : String} {inputs : List Input}
    {config : Config Id} (hRun : runOf settings goal inputs = some config)
    (hGaveUp : GaveUp settings goal inputs) :
    headTests settings goal inputs = ⟨maxTestRetries, false⟩ := by
  obtain ⟨past, later, state, rfl, hPast⟩ := hGaveUp
  obtain ⟨-, hPassed, hFailures, -⟩ := retryRecord_of_run hPast
  have hAt : headTests settings goal past = ⟨maxTestRetries, false⟩ := by
    rw [← hPassed, ← hFailures]
  obtain ⟨middle, hMiddle, hLater⟩ := replay_prefix hRun
  rw [runOf, hMiddle] at hPast
  cases hPast
  cases later with
  | nil => rw [List.append_nil, hAt]
  | cons input rest =>
      rw [replay] at hLater
      cases hStep : step settings ⟨.giveUp, state⟩ input with
      | none => simp [hStep] at hLater
      | some next =>
          simp only [hStep] at hLater
          have hKept := sinceHead_kept (⟨0, false⟩ : HeadTests) noteOutcome hMiddle hStep
          cases moves_of_step hStep with
          | giveUp =>
              rw [replay_finished hLater]
              exact (hKept (not_headChanged rfl rfl)).trans hAt

/-- The queue manager has a passing run behind it, or puts up a new head. -/
theorem headTests_of_queueManager {settings : Settings Id} {goal : String} {past : List Input}
    {prev next : Config Id} {input : Input} (hPast : runOf settings goal past = some prev)
    (hStep : step settings prev input = some next) (hPlace : prev.place = .queueManager) :
    (headTests settings goal (past ++ [input])).passed = true ∨
      headTests settings goal (past ++ [input]) = ⟨0, false⟩ := by
  have hPrior := retryRecord_of_run hPast
  cases moves_of_step hStep with
  | emptyQueue =>
      obtain ⟨-, hPassed, -⟩ := hPrior
      have hKept := sinceHead_kept (⟨0, false⟩ : HeadTests) noteOutcome hPast hStep
        (not_headChanged rfl rfl)
      exact Or.inl ((congrArg HeadTests.passed hKept).trans hPassed)
  | nextTask state _ task rest =>
      exact Or.inr (sinceHead_changed (⟨0, false⟩ : HeadTests) noteOutcome hPast hStep
        (headChanged_nextTask state task rest _))
  | _ => cases hPlace

/-- And a run with that record has given up. -/
theorem gaveUp_of_headTests {settings : Settings Id} {goal : String} {inputs : List Input}
    {config : Config Id} (hRun : runOf settings goal inputs = some config)
    (hTests : headTests settings goal inputs = ⟨maxTestRetries, false⟩) :
    GaveUp settings goal inputs := by
  have hRecord := retryRecord_of_run hRun
  rw [hTests] at hRecord
  obtain ⟨place, state⟩ := config
  cases place with
  | giveUp => exact ⟨inputs, [], state, by simp, hRun⟩
  | planner => cases hRecord.2.1
  | suspended => cases hRecord.2.1
  | coder => exact (Nat.lt_irrefl _ hRecord.2.2.1).elim
  | coderTools => exact (Nat.lt_irrefl _ hRecord.2.2.1).elim
  | tester => exact (Nat.lt_irrefl _ hRecord.2.2.1).elim
  | queueManager => exact (Nat.lt_irrefl _ hRecord.2.2.1).elim
  | finished =>
      rcases replay_cases hRun with ⟨-, hStart⟩ | ⟨past, input, prev, rfl, hPast, hStep⟩
      · cases hStart
      · rcases place_of_finished hStep rfl with hQueue | hGiveUp
        · rcases headTests_of_queueManager hPast hStep hQueue with hPassed | hZero
          · rw [hTests] at hPassed
            cases hPassed
          · rw [hTests] at hZero
            cases hZero
        · obtain ⟨place, before⟩ := prev
          cases hGiveUp
          exact ⟨past, [input], before, rfl, hPast⟩

/-- What holds of the retries and the test runs of a run. -/
structure RetryLaw (settings : Settings Id) (goal : String) (inputs : List Input)
    (config : Config Id) : Prop where
  bounded : config.state.retryCount ≤ maxTestRetries
  /-- The counter has the failed test runs of the head task, until one passes. -/
  counts : config.state.retryCount =
    if (headTests settings goal inputs).passed then 0 else (headTests settings goal inputs).failures
  coder : config.place = .coder → config.state.retryCount < maxTestRetries
  giveUp : GaveUp settings goal inputs ↔ headTests settings goal inputs = ⟨maxTestRetries, false⟩
  /-- A task takes up to five test runs, and so does a plan without any. -/
  tests : config.state.planApproved = true → ∃ a : Approval, inputs = a.inputs ∧
    approves a.response = true ∧ (∀ input ∈ a.after, input.toPlanner = false) ∧
    inputs.countP Input.isTest ≤
      maxTestRetries * max 1 (parsePlan settings.safeLoad a.reply).1.length
  untested : config.state.planApproved = false → inputs.countP Input.isTest = 0

/-- The retry law for every run of the graph, approved or not. It bounds the test runs for each
task; it does not say that a task is ever completed. -/
theorem retryLaw_of_run (settings : Settings Id) (goal : String) (inputs : List Input)
    (config : Config Id) (hRun : runOf settings goal inputs = some config) :
    RetryLaw settings goal inputs config where
  bounded := (retryRecord_of_run hRun).retryCount_le
  counts := (retryRecord_of_run hRun).1
  coder := by
    intro hPlace
    have hRecord := retryRecord_of_run hRun
    obtain ⟨place, state⟩ := config
    cases hPlace
    obtain ⟨hCount, hPassed, hFailures, -⟩ := hRecord
    rw [HeadTests.retries, hPassed] at hCount
    exact hCount ▸ hFailures
  giveUp := ⟨headTests_of_gaveUp hRun, gaveUp_of_headTests hRun⟩
  tests := by
    intro hApproved
    rcases phase_of_run hRun with hUnapproved | ⟨a, h⟩
    · rw [hUnapproved.unapproved] at hApproved
      cases hApproved
    · refine ⟨a, h.inputs_eq, h.approves, h.planned, ?_⟩
      rw [← h.conserved]
      exact (retryRecord_of_run hRun).tests_le (room_of_run hRun)
  untested := by
    intro hApproved
    have hRecord := retryRecord_of_run hRun
    rcases phase_of_run hRun with hUnapproved | ⟨a, h⟩
    · rcases hUnapproved.place with hPlanner | ⟨shown, past, hShown, -⟩
      · rw [RetryRecord, hPlanner] at hRecord
        exact hRecord.2.2
      · rw [RetryRecord, hShown] at hRecord
        exact hRecord.2.2
    · rw [h.approved] at hApproved
      cases hApproved

/-- The tests of a plan of one task fail once, and then pass. -/
def failsThenPasses : List Input :=
  [.draft "id: a", .resume "yes" "id: a",
    .coder "m0" ⟨"m1", "Done.", []⟩, .cargo (.exited 101 "" "error"),
    .coder "m0" ⟨"m2", "Done.", []⟩, .cargo (.exited 0 "ok" "")]

def passedState : WorkflowState String :=
  let first := afterCoder (approvedConfig "id: a").state idLineSettings "m0" ⟨"m1", "Done.", []⟩
  let failed := afterTest first (.exited 101 "" "error")
  afterTest (afterCoder failed idLineSettings "m0" ⟨"m2", "Done.", []⟩) (.exited 0 "ok" "")

theorem failsThenPasses_run :
    runOf idLineSettings "goal" failsThenPasses = some ⟨.queueManager, passedState⟩ := by
  decide +kernel

theorem retryLaw_of_failsThenPasses :
    RetryLaw idLineSettings "goal" failsThenPasses ⟨.queueManager, passedState⟩ :=
  retryLaw_of_run idLineSettings "goal" failsThenPasses ⟨.queueManager, passedState⟩
    failsThenPasses_run

/-- After the pass the counter is 0, and the head task still is the one that has
failed a test run. -/
theorem pass_clears_retryCount :
    runOf idLineSettings "goal" failsThenPasses = some ⟨.queueManager, passedState⟩ ∧
    passedState.planApproved = true ∧ passedState.todoTasks = ["a"] ∧
    passedState.retryCount = 0 ∧
      (headTests idLineSettings "goal" failsThenPasses).failures = 1 := by
  refine ⟨failsThenPasses_run, ?_⟩
  decide +kernel

end Orchestrator
