import RustyArm64.Orchestrator.PlanApproval

/-! No task is lost or done twice: the tasks enqueued with an approval are worked
off in order, each one by the queue manager right after its tests have passed. -/
namespace Orchestrator

open Replay

theorem exited_of_passed {outcome : CargoOutcome} (hPassed : outcome.passed = true) :
    ∃ stdout stderr, outcome = .exited 0 stdout stderr := by
  cases outcome with
  | exited returncode stdout stderr =>
      simp only [CargoOutcome.passed, beq_iff_eq] at hPassed
      exact ⟨stdout, stderr, by rw [hPassed]⟩
  | raised message => cases hPassed

variable {Id : Type} [DecidableEq Id] [Value Id]

/-- Only a test run leads to the queue manager or to giving up. -/
theorem tested_of_run {settings : Settings Id} {goal : String} {inputs : List Input}
    {config : Config Id} (hRun : runOf settings goal inputs = some config)
    (hPlace : config.place = .queueManager ∨ config.place = .giveUp) :
    ∃ past outcome state, inputs = past ++ [.cargo outcome] ∧
      runOf settings goal past = some ⟨.tester, state⟩ ∧
      config = ⟨placeAfterTest state outcome, afterTest state outcome⟩ := by
  rcases replay_cases hRun with ⟨-, rfl⟩ | ⟨past, input, prev, rfl, hPast, hStep⟩
  · simp [start] at hPlace
  · have hTester := tester_of_tested hStep hPlace
    cases moves_of_step hStep with
    | test state outcome => exact ⟨past, outcome, state, rfl, hPast, rfl⟩
    | _ => cases hTester

/-- A step leaves the completed tasks alone, or it is one of the queue manager. -/
theorem completed_of_step {settings : Settings Id} {prev next : Config Id} {input : Input}
    (hStep : step settings prev input = some next) :
    next.state.completedTasks = prev.state.completedTasks ∨
    ∃ gitStatus task rest, prev.place = .queueManager ∧ input = .gitStatus gitStatus ∧
      prev.state.todoTasks = task :: rest ∧ next.state.todoTasks = rest ∧
      next.state.completedTasks = prev.state.completedTasks ++ [task] := by
  cases moves_of_step hStep with
  | nextTask state gitStatus task rest hTodo =>
      exact Or.inr ⟨gitStatus, task, rest, rfl, rfl, hTodo, rfl, rfl⟩
  | draft => exact Or.inl rfl
  | approve => exact Or.inl rfl
  | revise => exact Or.inl rfl
  | coder => exact Or.inl rfl
  | tools => exact Or.inl rfl
  | test => exact Or.inl rfl
  | emptyQueue => exact Or.inl rfl
  | giveUp => exact Or.inl rfl

/-- The step completes the head of the queue, right after a test run with exit
code 0 at which it was the head. -/
def CompletesHead (settings : Settings Id) (goal : String) (past : List Input)
    (prev : Config Id) (input : Input) (next : Config Id) : Prop :=
  ∃ earlier stdout stderr tested gitStatus task rest,
    past = earlier ++ [.cargo (.exited 0 stdout stderr)] ∧
    runOf settings goal earlier = some ⟨.tester, tested⟩ ∧ tested.todoTasks = task :: rest ∧
    prev.place = .queueManager ∧ input = .gitStatus gitStatus ∧
    prev.state.todoTasks = task :: rest ∧ next.state.todoTasks = rest ∧
    next.state.completedTasks = prev.state.completedTasks ++ [task]

/-- The list of completed tasks changes by the head, behind a passed test run. -/
theorem completesHead_of_step {settings : Settings Id} {goal : String} {past : List Input}
    {prev next : Config Id} {input : Input} (hPast : runOf settings goal past = some prev)
    (hStep : step settings prev input = some next)
    (hChanged : next.state.completedTasks ≠ prev.state.completedTasks) :
    CompletesHead settings goal past prev input next := by
  rcases completed_of_step hStep with hSame | ⟨gitStatus, task, rest, hMove⟩
  · exact (hChanged hSame).elim
  · obtain ⟨hPlace, hInput, hTodo, hRest, hCompleted⟩ := hMove
    obtain ⟨earlier, outcome, tested, rfl, hTested, rfl⟩ := tested_of_run hPast (Or.inl hPlace)
    have hPassed := (placeAfterTest_eq_queueManager tested).mp hPlace
    obtain ⟨stdout, stderr, rfl⟩ := exited_of_passed hPassed
    exact ⟨earlier, stdout, stderr, tested, gitStatus, task, rest, rfl, hTested, hTodo, hPlace,
      hInput, hTodo, hRest, hCompleted⟩

/-- The last run before giving up failed, and the queue is as it was then. It is
empty only if nothing was ever enqueued. -/
def KeepsHead (settings : Settings Id) (goal : String) (past : List Input)
    (last : WorkflowState Id) : Prop :=
  ∃ earlier outcome tested, past = earlier ++ [.cargo outcome] ∧ outcome.passed = false ∧
    runOf settings goal earlier = some ⟨.tester, tested⟩ ∧ last.todoTasks = tested.todoTasks ∧
    (last.completedTasks ++ last.todoTasks ≠ [] →
      ∃ task rest, tested.todoTasks = task :: rest ∧ last.todoTasks = task :: rest)

/-- Giving up keeps the head in the queue. -/
theorem keepsHead_of_giveUp {settings : Settings Id} {goal : String} {past : List Input}
    {prev : Config Id} (hPast : runOf settings goal past = some prev)
    (hPlace : prev.place = .giveUp) : KeepsHead settings goal past prev.state := by
  obtain ⟨earlier, outcome, tested, rfl, hTested, rfl⟩ := tested_of_run hPast (Or.inr hPlace)
  obtain ⟨a, hApproved⟩ := approved_of_executes hTested rfl
  refine ⟨earlier, outcome, tested, rfl, ((placeAfterTest_eq_giveUp tested).mp hPlace).1, hTested,
    rfl, ?_⟩
  intro hEnqueued
  cases hTodo : tested.todoTasks with
  | nil =>
      have hNothing := hApproved.busy Place.noConfusion hTodo
      rw [← hApproved.conserved] at hNothing
      exact (hEnqueued hNothing).elim
  | cons task rest => exact ⟨task, rest, rfl, hTodo⟩

/-- What holds of the tasks of a run. -/
structure TaskHistory (settings : Settings Id) (goal : String) (inputs : List Input)
    (config : Config Id) : Prop where
  /-- After an approval the completed tasks and the ones left are, in order, those
  that were enqueued. -/
  conserved : config.state.planApproved = true →
    ∃ a : Approval, inputs = a.inputs ∧ approves a.response = true ∧
      (∀ input ∈ a.after, input.toPlanner = false) ∧
      config.state.completedTasks ++ config.state.todoTasks =
        (parsePlan settings.safeLoad a.reply).1
  /-- One step of the run has put the task at this position. -/
  once : ∀ i < config.state.completedTasks.length,
    ∃! k, Crosses (step settings) (fun c => c.state.completedTasks.length) (start Id goal)
      inputs i k
  completes : ∀ past input later prev next, inputs = past ++ input :: later →
    runOf settings goal past = some prev → step settings prev input = some next →
    next.state.completedTasks ≠ prev.state.completedTasks →
    CompletesHead settings goal past prev input next
  queueEnd : ∀ past input prev, inputs = past ++ [input] →
    runOf settings goal past = some prev → prev.place = .queueManager →
    config.place = .finished → config.state.todoTasks = []
  giveUpEnd : ∀ past input prev, inputs = past ++ [input] →
    runOf settings goal past = some prev → prev.place = .giveUp →
    config.place = .finished ∧ KeepsHead settings goal past config.state

/-- Completed and queued tasks are together those of the approved plan, in its order. -/
theorem conserved_of_run {settings : Settings Id} {goal : String} {inputs : List Input}
    {config : Config Id} (hRun : runOf settings goal inputs = some config)
    (hApproved : config.state.planApproved = true) :
    ∃ a : Approval, inputs = a.inputs ∧ approves a.response = true ∧
      (∀ input ∈ a.after, input.toPlanner = false) ∧
      config.state.completedTasks ++ config.state.todoTasks =
        (parsePlan settings.safeLoad a.reply).1 := by
  rcases phase_of_run hRun with hUnapproved | ⟨a, h⟩
  · rw [hUnapproved.unapproved] at hApproved
    cases hApproved
  · exact ⟨a, h.inputs_eq, h.approves, h.planned, h.conserved⟩

/-- The queue manager ends a run only with an empty queue. -/
theorem todo_of_queueEnd {settings : Settings Id} {prev last : Config Id} {input : Input}
    (hStep : step settings prev input = some last) (hPlace : prev.place = .queueManager)
    (hFinished : last.place = .finished) : last.state.todoTasks = [] := by
  cases moves_of_step hStep with
  | emptyQueue state gitStatus hTodo => exact hTodo
  | nextTask state gitStatus task rest hTodo =>
      cases rest with
      | nil => rfl
      | cons second others => cases hFinished
  | _ => cases hPlace

theorem giveUp_of_step {settings : Settings Id} {prev last : Config Id} {input : Input}
    (hStep : step settings prev input = some last) (hPlace : prev.place = .giveUp) :
    last.place = .finished ∧ last.state = prev.state := by
  cases moves_of_step hStep with
  | giveUp state => exact ⟨rfl, rfl⟩
  | _ => cases hPlace

/-- The task history of every run, approved or not. That the tasks are ever worked off is not
said here. -/
theorem taskHistory_of_run (settings : Settings Id) (goal : String) (inputs : List Input)
    (config : Config Id) (hRun : runOf settings goal inputs = some config) :
    TaskHistory settings goal inputs config where
  conserved := conserved_of_run hRun
  once := by
    intro i hCompleted
    refine exists_unique_crossing ?_ hRun (Nat.zero_le i) hCompleted
    intro prev input next hStep
    rcases completed_of_step hStep with hSame | ⟨gitStatus, task, rest, -, -, -, -, hMore⟩
    · exact Or.inl (by rw [hSame])
    · exact Or.inr (by rw [hMore, List.length_append, List.length_singleton])
  completes := fun past input later prev next _ hPast hStep hChanged =>
    completesHead_of_step hPast hStep hChanged
  queueEnd := by
    rintro past input prev rfl hPast hPlace hFinished
    obtain ⟨state, hState, hStep⟩ := replay_snoc_eq_some.mp hRun
    rw [runOf, hState] at hPast
    cases hPast
    exact todo_of_queueEnd hStep hPlace hFinished
  giveUpEnd := by
    rintro past input prev rfl hPast hPlace
    obtain ⟨state, hState, hStep⟩ := replay_snoc_eq_some.mp hRun
    have hPrior := hPast
    rw [runOf, hState] at hPrior
    cases hPrior
    obtain ⟨hFinished, hKept⟩ := giveUp_of_step hStep hPlace
    refine ⟨hFinished, ?_⟩
    rw [hKept]
    exact keepsHead_of_giveUp hPast hPlace

/-- A plan of one task, whose tests pass. -/
def oneTaskPasses : List Input :=
  [.draft "id: a", .resume "yes" "id: a", .coder "m0" ⟨"m1", "Done.", []⟩,
    .cargo (.exited 0 "ok" ""), .gitStatus ""]

def oneTaskDone : WorkflowState String :=
  let coded := afterCoder (approvedConfig "id: a").state idLineSettings "m0" ⟨"m1", "Done.", []⟩
  afterTask (afterTest coded (.exited 0 "ok" "")) "a" []

theorem taskHistory_of_oneTaskPasses :
    TaskHistory idLineSettings "goal" oneTaskPasses ⟨.finished, oneTaskDone⟩ :=
  taskHistory_of_run idLineSettings "goal" oneTaskPasses ⟨.finished, oneTaskDone⟩
    (by decide +kernel)

def failedAttempt (messageId : String) : List Input :=
  [.coder "m0" ⟨messageId, "Done.", []⟩, .cargo (.exited 101 "" "error")]

/-- A draft without a step is approved, and the tests fail five times. -/
def emptyPlanFails : List Input :=
  [.draft "none", .resume "yes" "none"] ++ ["m1", "m2", "m3", "m4", "m5"].flatMap failedAttempt

def emptyPlanFailed : WorkflowState String :=
  ["m1", "m2", "m3", "m4", "m5"].foldl (fun state messageId =>
    afterTest (afterCoder state idLineSettings "m0" ⟨messageId, "Done.", []⟩)
      (.exited 101 "" "error")) (approvedConfig "none").state

/-- The run ends through giving up and no task heads the queue. -/
theorem giveUp_without_task :
    runOf idLineSettings "goal" emptyPlanFails = some ⟨.giveUp, emptyPlanFailed⟩ ∧
    runOf idLineSettings "goal" (emptyPlanFails ++ [.gitDiff]) =
      some ⟨.finished, emptyPlanFailed⟩ ∧
    ¬∃ task rest, emptyPlanFailed.todoTasks = task :: rest := by
  refine ⟨by decide +kernel, by decide +kernel, ?_⟩
  rintro ⟨task, rest, hTodo⟩
  cases hTodo

end Orchestrator
