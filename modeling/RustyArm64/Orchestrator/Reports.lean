import RustyArm64.Base.LastWriter
import RustyArm64.Orchestrator.PlanParsing
import RustyArm64.Orchestrator.Progress
import RustyArm64.Orchestrator.RetryBudget
import RustyArm64.Orchestrator.TaskConservation

/-! What a run says of its head task: the plan in the prompt of the coder, the message
of the commit, and the report on giving up. All of it is read from the reply that was
approved. -/
namespace Orchestrator

variable {Id : Type} [DecidableEq Id] [Value Id]

section Pieces

variable (safeLoad : String → Option (Yaml Id))

/-- The id and the title of a piece of the draft that is a step. -/
def stepOf (piece : String) : Option (Id × Option Id) :=
  if strip piece = "" then none
  else
    match safeLoad (strip piece) with
    | some (.mapping (some stepId) title?) =>
      if Value.hashable stepId then some (stepId, title?) else none
    | _ => none

/-- The piece is a step with this id. -/
def isStep (id : Id) (piece : String) : Bool :=
  (stepOf safeLoad piece).any fun step => decide (step.1 = id)

/-- A piece that parses to no step is passed over without a trace. -/
theorem addStep_eq (steps : List Id × StepPlans Id) (piece : String) :
    addStep safeLoad steps piece = ((stepOf safeLoad piece).map fun step =>
      (steps.1 ++ [step.1], steps.2.set step.1 (strip piece))).getD steps := by
  unfold addStep stepOf
  dsimp only
  by_cases hNone : strip piece = ""
  · rw [if_pos hNone, if_pos hNone]
    rfl
  · rw [if_neg hNone, if_neg hNone]
    rcases safeLoad (strip piece) with _ | ⟨_ | stepId, title?⟩ | _
    · rfl
    · rfl
    · dsimp only
      split <;> rfl
    · rfl

omit [DecidableEq Id] in
theorem safeLoad_of_stepOf {piece : String} {id : Id} {title? : Option Id}
    (hStep : stepOf safeLoad piece = some (id, title?)) :
    safeLoad (strip piece) = some (.mapping (some id) title?) := by
  unfold stepOf at hStep
  split at hStep
  · cases hStep
  · split at hStep
    · rename_i hLoad
      split at hStep
      · cases hStep
        exact hLoad
      · cases hStep
    · cases hStep

/-- The tasks are the ids of the steps, in order. -/
theorem foldl_addStep_tasks (pieces : List String) (steps : List Id × StepPlans Id) :
    (pieces.foldl (addStep safeLoad) steps).1 =
      steps.1 ++ (pieces.filterMap (stepOf safeLoad)).map Prod.fst := by
  induction pieces generalizing steps with
  | nil => exact (List.append_nil _).symm
  | cons piece rest ih =>
      rw [List.foldl_cons, ih, addStep_eq]
      cases hStep : stepOf safeLoad piece with
      | none => rw [List.filterMap_cons_none hStep, Option.map_none, Option.getD_none]
      | some step =>
          rw [List.filterMap_cons_some hStep, Option.map_some, Option.getD_some, List.map_cons,
            List.append_assoc, List.singleton_append]

/-- The plan of an id is the last step that has it. -/
theorem get_parsePlan (draft : String) (id : Id) (default : String) :
    (parsePlan safeLoad draft).2.get id default =
      (((splitDashes draft).reverse.find? (isStep safeLoad id)).map strip).getD default := by
  refine LastWriter.foldl_eq_find? (fun steps : List Id × StepPlans Id => steps.2.get id default)
    ?_ ?_ (splitDashes draft) ([], [])
  · intro steps piece hWrites
    obtain ⟨step, hStep, hId⟩ := (Option.any_eq_true ..).mp hWrites
    rw [addStep_eq, hStep, Option.map_some, Option.getD_some, ← of_decide_eq_true hId,
      StepPlans.get_set_self]
  · intro steps piece hKept
    rw [addStep_eq]
    cases hStep : stepOf safeLoad piece with
    | none => rfl
    | some step =>
        rw [isStep, hStep, Option.any_some, decide_eq_false_iff_not] at hKept
        rw [Option.map_some, Option.getD_some, StepPlans.get_set_of_ne _ hKept]

/-- Every task has a last step. -/
theorem exists_last_step {draft : String} {task : Id}
    (hTask : task ∈ (parsePlan safeLoad draft).1) :
    ∃ piece title?, (splitDashes draft).reverse.find? (isStep safeLoad task) = some piece ∧
      stepOf safeLoad piece = some (task, title?) := by
  rw [parsePlan, foldl_addStep_tasks, List.nil_append] at hTask
  obtain ⟨⟨id, title⟩, hStep, rfl⟩ := List.mem_map.mp hTask
  obtain ⟨piece, hPiece, hStepOf⟩ := List.mem_filterMap.mp hStep
  have hSome : ((splitDashes draft).reverse.find? (isStep safeLoad id)).isSome := by
    rw [List.find?_isSome]
    exact ⟨piece, List.mem_reverse.mpr hPiece, by simp [isStep, hStepOf]⟩
  obtain ⟨last, hLast⟩ := Option.isSome_iff_exists.mp hSome
  have hIs : isStep safeLoad id last = true := List.find?_some hLast
  obtain ⟨⟨id', title?⟩, hLastStep, hId⟩ := (Option.any_eq_true ..).mp hIs
  cases of_decide_eq_true hId
  exact ⟨last, title?, hLast, hLastStep⟩

/-- A draft without steps has no piece for any id. -/
theorem find?_of_no_steps {draft : String} (hNone : (parsePlan safeLoad draft).1 = []) (id : Id) :
    (splitDashes draft).reverse.find? (isStep safeLoad id) = none := by
  rw [parsePlan, foldl_addStep_tasks, List.nil_append, List.map_eq_nil_iff,
    List.filterMap_eq_nil_iff] at hNone
  rw [List.find?_eq_none]
  intro piece hPiece
  rw [isStep, hNone piece (List.mem_reverse.mp hPiece)]
  exact Bool.false_ne_true

end Pieces

section Head

/-- The last step of a reply with the id of a task, and its title. -/
structure LastStep (settings : Settings Id) (reply : String) (task : Id) (piece : String)
    (title? : Option Id) : Prop where
  last : (splitDashes reply).reverse.find? (isStep settings.safeLoad task) = some piece
  loads : settings.safeLoad (strip piece) = some (.mapping (some task) title?)

/-- The head of the queue comes from a piece of the approved draft. -/
theorem Approved.exists_lastStep {settings : Settings Id} {a : Approval} {inputs : List Input}
    {config : Config Id} (h : Approved settings a inputs config) {task : Id} {rest : List Id}
    (hTodo : config.state.todoTasks = task :: rest) :
    ∃ piece title?, LastStep settings a.reply task piece title? := by
  have hTask : task ∈ (parsePlan settings.safeLoad a.reply).1 := by
    rw [← h.conserved, hTodo]
    exact List.mem_append_right _ List.mem_cons_self
  obtain ⟨piece, title?, hLast, hStep⟩ := exists_last_step settings.safeLoad hTask
  exact ⟨piece, title?, hLast, safeLoad_of_stepOf settings.safeLoad hStep⟩

/-- What is stored under the head is the text of its last piece, through the whole run. -/
theorem Approved.get_stepPlans {settings : Settings Id} {a : Approval} {inputs : List Input}
    {config : Config Id} (h : Approved settings a inputs config) {task : Id} {piece : String}
    {title? : Option Id} (hStep : LastStep settings a.reply task piece title?) (default : String) :
    config.state.stepPlans.get task default = strip piece := by
  rw [h.plans, get_parsePlan, hStep.last]
  rfl

/-- The title is that of the last piece too, and the id where it has none. -/
theorem Approved.taskTitle_eq {settings : Settings Id} {a : Approval} {inputs : List Input}
    {config : Config Id} (h : Approved settings a inputs config) {task : Id} {piece : String}
    {title? : Option Id} (hStep : LastStep settings a.reply task piece title?) :
    taskTitle settings config.state task = title?.getD task := by
  unfold taskTitle
  rw [h.get_stepPlans hStep, hStep.loads]
  cases title? with
  | none => rfl
  | some title => rfl

/-- Wherever the plan is worked off, the coder and the commit are given the last step of
the approved reply with the id of the head task. A plan is never missing. It is not said
that the ids of a plan are distinct. -/
theorem head_is_reported {settings : Settings Id} {goal : String} {inputs : List Input}
    {config : Config Id} (hRun : runOf settings goal inputs = some config)
    (hPlace : config.place.executes = true) {task : Id} {rest : List Id}
    (hTodo : config.state.todoTasks = task :: rest) :
    ∃ a : Approval, inputs = a.inputs ∧ approves a.response = true ∧
      (∀ input ∈ a.after, input.toPlanner = false) ∧
      ∃ piece title?, LastStep settings a.reply task piece title? ∧
        currentStepPlan config.state =
          (if Value.truthy task then strip piece else "No tasks left.") ∧
        ∀ gitStatus, (queueManagerNode settings config.state gitStatus).2 =
          if strip gitStatus = "" then [] else
            [.addAll, .commit ("complete " ++ Value.str task ++ ": " ++
              Value.str (title?.getD task))] := by
  obtain ⟨a, hApproved⟩ := approved_of_executes hRun hPlace
  obtain ⟨piece, title?, hStep⟩ := hApproved.exists_lastStep hTodo
  refine ⟨a, hApproved.inputs_eq, hApproved.approves, hApproved.planned, piece, title?,
    hStep, ?_, ?_⟩
  · rw [currentStepPlan, hTodo]
    dsimp only
    rw [hApproved.get_stepPlans hStep]
  · intro gitStatus
    rw [queueManagerNode, hTodo]
    dsimp only
    rw [commitCommands, hApproved.taskTitle_eq hStep]

theorem idLineApproved_todo : (approvedConfig "id: a").state.todoTasks = ["a"] := by
  decide +kernel

theorem head_is_reported_idLineApproved :
    ∃ a : Approval, idLineApproved = a.inputs ∧
      approves a.response = true ∧ (∀ input ∈ a.after, input.toPlanner = false) ∧
      ∃ piece title?, LastStep idLineSettings a.reply "a" piece title? ∧
        currentStepPlan (approvedConfig "id: a").state =
          (if Value.truthy "a" then strip piece else "No tasks left.") ∧
        ∀ gitStatus, (queueManagerNode idLineSettings (approvedConfig "id: a").state gitStatus).2 =
          if strip gitStatus = "" then [] else
            [.addAll, .commit ("complete " ++ Value.str "a" ++ ": " ++
              Value.str (title?.getD "a"))] :=
  head_is_reported idLineApproved_run rfl idLineApproved_todo

end Head

section GivingUp

/-- What `give_up_node` prints, one entry for each `print`. The task `unknown` stands for
an empty queue. -/
def giveUpReport (unknown : Id) (state : WorkflowState Id) (gitDiff : String) : List String :=
  let task := state.todoTasks.headD unknown
  let stepYaml := state.stepPlans.get task "No step plan found."
  ["\n>>> [give_up] starting...",
    "\n>>> GIVING UP on '" ++ Value.str task ++ "' after " ++ toString state.retryCount ++
      " failed attempts.",
    "\n>>> Step Plan:\n" ++ stepYaml,
    "\n>>> Last test output:\n" ++ state.testResults,
    "\n>>> Git diff:\n" ++ gitDiff]

/-- The report of a task, its plan and its last test run. -/
def fiveFailures (task plan testOutput gitDiff : String) : List String :=
  ["\n>>> [give_up] starting...",
    "\n>>> GIVING UP on '" ++ task ++ "' after 5 failed attempts.",
    "\n>>> Step Plan:\n" ++ plan,
    "\n>>> Last test output:\n" ++ testOutput,
    "\n>>> Git diff:\n" ++ gitDiff]

/-- The printed report, once head, plan and counter are known. -/
theorem giveUpReport_eq {unknown task : Id} {state : WorkflowState Id} {plan : String}
    (hTask : state.todoTasks.headD unknown = task)
    (hPlan : state.stepPlans.get task "No step plan found." = plan)
    (hRetries : state.retryCount = maxTestRetries) (gitDiff : String) :
    giveUpReport unknown state gitDiff =
      fiveFailures (Value.str task) plan state.testResults gitDiff := by
  have hFive : "' after " ++ (toString maxTestRetries ++ " failed attempts.") =
      "' after 5 failed attempts." := by decide
  unfold giveUpReport fiveFailures
  dsimp only
  rw [hTask, hPlan, hRetries, ← hFive]
  simp only [String.append_assoc]

/-- Giving up comes after exactly the allowed number of failures. -/
theorem retryCount_of_giveUp {settings : Settings Id} {goal : String} {inputs : List Input}
    {state : WorkflowState Id} (hRun : runOf settings goal inputs = some ⟨.giveUp, state⟩) :
    state.retryCount = maxTestRetries := by
  obtain ⟨hCount, hPassed, hFailures, -⟩ := retryRecord_of_run hRun
  rw [hCount, HeadTests.retries, hPassed, if_neg Bool.false_ne_true, hFailures]

/-- The report on giving up is true: five attempts, the output of the test run before it,
which failed, and the plan of the head task. Only a plan without steps has no task. The diff
that is printed behind it is not part of this. -/
theorem giving_up_is_reported {settings : Settings Id} {goal : String} {inputs : List Input}
    {state : WorkflowState Id} (hRun : runOf settings goal inputs = some ⟨.giveUp, state⟩)
    (unknown : Id) (gitDiff : String) :
    ∃ (a : Approval) (outcome : CargoOutcome), inputs = a.inputs ∧ approves a.response = true ∧
      inputs.getLast? = some (.cargo outcome) ∧ outcome.passed = false ∧
      (state.todoTasks = [] → (parsePlan settings.safeLoad a.reply).1 = [] ∧
        giveUpReport unknown state gitDiff =
          fiveFailures (Value.str unknown) "No step plan found." outcome.report gitDiff) ∧
      ∀ task rest, state.todoTasks = task :: rest →
        ∃ piece title?, LastStep settings a.reply task piece title? ∧
          giveUpReport unknown state gitDiff =
            fiveFailures (Value.str task) (strip piece) outcome.report gitDiff := by
  obtain ⟨a, hApproved⟩ := approved_of_executes hRun rfl
  obtain ⟨past, outcome, tested, rfl, -, hConfig⟩ := tested_of_run hRun (Or.inr rfl)
  obtain ⟨hPlace, hState⟩ := Config.mk.inj hConfig
  have hFailed := ((placeAfterTest_eq_giveUp tested).mp hPlace.symm).1
  have hRetries := retryCount_of_giveUp hRun
  have hOutput : state.testResults = outcome.report := by rw [hState, afterTest]
  refine ⟨a, outcome, hApproved.inputs_eq, hApproved.approves, List.getLast?_concat, hFailed,
    ?_, ?_⟩
  · intro hTodo
    have hNothing := hApproved.busy Place.noConfusion hTodo
    have hPlan : state.stepPlans.get unknown "No step plan found." = "No step plan found." := by
      rw [hApproved.plans, get_parsePlan, find?_of_no_steps settings.safeLoad hNothing]
      rfl
    refine ⟨hNothing, ?_⟩
    rw [← hOutput]
    exact giveUpReport_eq (by rw [hTodo, List.headD_nil]) hPlan hRetries gitDiff
  · intro task rest hTodo
    obtain ⟨piece, title?, hStep⟩ := hApproved.exists_lastStep hTodo
    refine ⟨piece, title?, hStep, ?_⟩
    rw [← hOutput]
    exact giveUpReport_eq (by rw [hTodo, List.headD_cons]) (hApproved.get_stepPlans hStep _)
      hRetries gitDiff

/-- A plan of one task, whose tests fail five times. -/
def oneTaskFails : List Input :=
  idLineApproved ++ ["m1", "m2", "m3", "m4", "m5"].flatMap failedAttempt

def oneTaskFailed : WorkflowState String :=
  ["m1", "m2", "m3", "m4", "m5"].foldl (fun state messageId =>
    afterTest (afterCoder state idLineSettings "m0" ⟨messageId, "Done.", []⟩)
      (.exited 101 "" "error")) (approvedConfig "id: a").state

theorem oneTaskFails_run :
    runOf idLineSettings "goal" oneTaskFails = some ⟨.giveUp, oneTaskFailed⟩ := by
  decide +kernel

theorem giving_up_is_reported_oneTaskFails :
    ∃ (a : Approval) (outcome : CargoOutcome), oneTaskFails = a.inputs ∧
      approves a.response = true ∧ oneTaskFails.getLast? = some (.cargo outcome) ∧
      outcome.passed = false ∧
      (oneTaskFailed.todoTasks = [] → (parsePlan idLineSettings.safeLoad a.reply).1 = [] ∧
        giveUpReport "unknown" oneTaskFailed "" =
          fiveFailures (Value.str "unknown") "No step plan found." outcome.report "") ∧
      ∀ task rest, oneTaskFailed.todoTasks = task :: rest →
        ∃ piece title?, LastStep idLineSettings a.reply task piece title? ∧
          giveUpReport "unknown" oneTaskFailed "" =
            fiveFailures (Value.str task) (strip piece) outcome.report "" :=
  giving_up_is_reported oneTaskFails_run "unknown" ""

end GivingUp

end Orchestrator
