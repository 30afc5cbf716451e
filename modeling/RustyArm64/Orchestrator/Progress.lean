import Mathlib.Data.Fintype.EquivFin
import RustyArm64.Orchestrator.ApprovalKeywords
import RustyArm64.Orchestrator.ToolHistory

/-! What a run needs to come to its end. The coder's router never raises, and unless the
tests fail for good the end of a run is never far, as long as the environment answers. -/
namespace Orchestrator

open Replay

variable {Id : Type}

/-- The tool node comes after a message that calls tools. -/
def Called (config : Config Id) : Prop :=
  config.place = .coderTools → ∃ id content toolCalls,
    config.state.messages.getLast? = some ⟨id, .ai content toolCalls⟩ ∧ toolCalls ≠ []

theorem called_of_route {state : WorkflowState Id} {route : Route}
    (hRoute : coderRouter state = some route) : Called ⟨route.place, state⟩ := by
  intro hPlace
  unfold coderRouter at hRoute
  split at hRoute
  · rename_i id content toolCalls hLast
    refine ⟨id, content, toolCalls, hLast, fun hNone => ?_⟩
    rw [hNone] at hRoute
    cases hRoute
    cases hPlace
  · cases hRoute

variable [DecidableEq Id] [Value Id] {settings : Settings Id}

/-- A step leads to the tool node only through the router, and so with calls pending. -/
theorem called_of_step {config next : Config Id} {input : Input}
    (hStep : step settings config input = some next) : Called next := by
  intro hPlace
  have hCoder := coder_of_tools hStep hPlace
  cases moves_of_step hStep with
  | coder state seedId response route hRoute => exact called_of_route hRoute hPlace
  | _ => cases hCoder

/-- In no run does the tool node find that there is nothing to call. -/
theorem called_of_run {goal : String} {inputs : List Input} {config : Config Id}
    (hRun : runOf settings goal inputs = some config) : Called config := by
  rcases replay_cases hRun with ⟨-, rfl⟩ | ⟨past, input, state, -, -, hStep⟩
  · exact fun hPlace => nomatch hPlace
  · exact called_of_step hStep

/-- The coder's router never raises in a run. Whatever the model replies, under ids that
are new, it goes to the tools if the reply has tool calls, and to the tests if it has none,
so that the tool node always finds a message with a call to make. Nothing is said about the
tools themselves: a call that raises ends the process. -/
theorem coderRouter_of_run {goal : String} {inputs : List Input} {config : Config Id}
    (hRun : runOf settings goal inputs = some config) :
    (∀ seedId response, FreshMessageIds settings config.state (.coder seedId response) →
      coderRouter (config.state.merge (coderNode settings config.state seedId response)) =
        some (if response.toolCalls.isEmpty then .tester else .coderTools)) ∧
    (config.place = .coderTools → ∃ id content toolCalls,
      config.state.messages.getLast? = some ⟨id, .ai content toolCalls⟩ ∧ toolCalls ≠ []) := by
  refine ⟨fun seedId response hFresh => ?_, called_of_run hRun⟩
  rw [merge_coderNode]
  exact coderRouter_afterCoder hFresh

/-- A plan of one task was approved. -/
def idLineApproved : List Input := [.draft "id: a", .resume "yes" "id: a"]

theorem idLineApproved_run :
    runOf idLineSettings "goal" idLineApproved = some (approvedConfig "id: a") := by
  decide +kernel

/-- The approved task is started with a call of a tool. -/
def toolsCalled : List Input := idLineApproved ++ [.coder "m0" ⟨"m1", "", [⟨"c1"⟩]⟩]

def toolsCalledEnd : Config String :=
  (runOf idLineSettings "goal" toolsCalled).get (by decide +kernel)

theorem coderRouter_of_run_toolsCalled :
    (∀ seedId response,
      FreshMessageIds idLineSettings toolsCalledEnd.state (.coder seedId response) →
      coderRouter (toolsCalledEnd.state.merge
          (coderNode idLineSettings toolsCalledEnd.state seedId response)) =
        some (if response.toolCalls.isEmpty then .tester else .coderTools)) ∧
    (toolsCalledEnd.place = .coderTools → ∃ id content toolCalls,
      toolsCalledEnd.state.messages.getLast? = some ⟨id, .ai content toolCalls⟩ ∧
        toolCalls ≠ []) :=
  coderRouter_of_run (Option.some_get _).symm

/-- A response as the prompt passes it on. -/
def Typed : Input → Prop
  | .resume userResponse _ => strip userResponse = userResponse ∧ userResponse ≠ ""
  | _ => True

/-- The inputs that bring a run nearer to its end: a draft, an approving response with this
reply to it, a reply of the coder without calls, a result for each call, a test run that
passes, the output of a git command. -/
def Answers (settings : Settings Id) (reply : String) (config : Config Id) (input : Input) :
    Prop :=
  FreshIds settings config.state input ∧ Typed input ∧ (step settings config input).isSome ∧
    match input with
    | .draft _ => True
    | .resume userResponse plan => approves userResponse = true ∧ plan = reply
    | .coder _ response => response.toolCalls = []
    | .tools _ => True
    | .cargo outcome => outcome.passed = true
    | .gitStatus _ => True
    | .gitDiff => True

/-- Wherever a run is brought by what the environment may give, it may give an answer. A
tool or git call that always raises gives nothing, and is no answer. -/
def Responsive (settings : Settings Id) (may : Config Id → Input → Prop) (reply : String)
    (config : Config Id) : Prop :=
  ∀ later next, replay (step settings) config later = some next →
    Along (step settings) may config later → next.place ≠ .finished →
    ∃ input, may next input ∧ Answers settings reply next input

section Fresh

omit [DecidableEq Id] [Value Id]

end Fresh

section Answering

variable {may : Config Id → Input → Prop} {reply : String} {config : Config Id}

/-- What can be answered here can be answered one step later. -/
theorem Responsive.next {input : Input} {next : Config Id}
    (h : Responsive settings may reply config)
    (hStep : step settings config input = some next) (hMay : may config input) :
    Responsive settings may reply next := by
  intro later finish hRun hAlong
  exact h (input :: later) finish ((replay_cons hStep later).trans hRun) (hAlong.cons hStep hMay)

/-- A responsive environment has an answer to what there is now. -/
theorem Responsive.answer (h : Responsive settings may reply config)
    (hPlace : config.place ≠ .finished) :
    ∃ input next, (may config input ∧ Answers settings reply config input) ∧
      step settings config input = some next ∧ Responsive settings may reply next := by
  obtain ⟨input, hMay, hAnswer⟩ := h [] config rfl trivial hPlace
  obtain ⟨next, hStep⟩ := Option.isSome_iff_exists.mp hAnswer.2.2.1
  exact ⟨input, next, ⟨hMay, hAnswer⟩, hStep, h.next hStep hMay⟩

theorem Called.replay {inputs : List Input} {next : Config Id} (h : Called config)
    (hRun : replay (step settings) config inputs = some next) : Called next := by
  rcases replay_cases hRun with ⟨-, rfl⟩ | ⟨past, input, state, -, -, hStep⟩
  · exact h
  · exact called_of_step hStep

end Answering

section Finish

variable {may : Config Id → Input → Prop} {reply : String}

/-- The inputs to the end if no tool is called and every test passes. -/
def inputsLeft (config : Config Id) : Nat :=
  match config.place with
  | .coderTools => 3 * max 1 config.state.todoTasks.length + 1
  | .coder => 3 * max 1 config.state.todoTasks.length
  | .tester => 3 * max 1 config.state.todoTasks.length - 1
  | .queueManager => 3 * max 1 config.state.todoTasks.length - 2
  | _ => 0

/-- The tasks are being completed, or have been. -/
structure Completing (tasks : List Id) (config : Config Id) : Prop where
  place : config.place = .coder ∨ config.place = .coderTools ∨ config.place = .tester ∨
    config.place = .queueManager ∨ config.place = .finished ∧ config.state.todoTasks = []
  tasks_eq : config.state.completedTasks ++ config.state.todoTasks = tasks

/-- Every answer brings the end nearer. -/
theorem Completing.next {tasks : List Id} {config next : Config Id} {input : Input}
    (h : Completing tasks config) (hAnswer : Answers settings reply config input)
    (hStep : step settings config input = some next) :
    Completing tasks next ∧ inputsLeft next < inputsLeft config := by
  obtain ⟨hAt, hTasks⟩ := h
  obtain ⟨hFresh, -, -, hHelps⟩ := hAnswer
  cases moves_of_step hStep with
  | coder state seedId response route hRoute =>
      have hRoom : 1 ≤ max 1 state.todoTasks.length := Nat.le_max_left _ _
      rw [coderRouter_afterCoder hFresh.1, hHelps] at hRoute
      cases hRoute
      refine ⟨⟨Or.inr (Or.inr (Or.inl rfl)), hTasks⟩, ?_⟩
      change 3 * max 1 state.todoTasks.length - 1 < 3 * max 1 state.todoTasks.length
      omega
  | tools state results update hUpdate => exact ⟨⟨Or.inl rfl, hTasks⟩, Nat.lt_succ_self _⟩
  | test state outcome =>
      have hRoom : 1 ≤ max 1 state.todoTasks.length := Nat.le_max_left _ _
      have hPasses := (placeAfterTest_eq_queueManager state).mpr hHelps
      rw [hPasses]
      refine ⟨⟨Or.inr (Or.inr (Or.inr (Or.inl rfl))), hTasks⟩, ?_⟩
      change 3 * max 1 state.todoTasks.length - 2 < 3 * max 1 state.todoTasks.length - 1
      omega
  | emptyQueue state gitStatus hTodo =>
      have hRoom : 1 ≤ max 1 state.todoTasks.length := Nat.le_max_left _ _
      refine ⟨⟨by simp [hTodo], hTasks⟩, ?_⟩
      change 0 < 3 * max 1 state.todoTasks.length - 2
      omega
  | nextTask state gitStatus task rest hTodo =>
      dsimp only at hTasks
      have hNextTasks : (afterTask state task rest).completedTasks ++
          (afterTask state task rest).todoTasks = tasks := by
        rw [← hTasks, hTodo]
        exact List.append_assoc _ _ _
      cases rest with
      | nil =>
          refine ⟨⟨by simp [afterTask], hNextTasks⟩, ?_⟩
          change 0 < 3 * max 1 state.todoTasks.length - 2
          omega
      | cons second others =>
          refine ⟨⟨by simp, hNextTasks⟩, ?_⟩
          change 3 * max 1 (others.length + 1) < 3 * max 1 state.todoTasks.length - 2
          rw [hTodo, List.length_cons, List.length_cons]
          omega
  | draft => simp at hAt
  | approve => simp at hAt
  | revise => simp at hAt
  | giveUp => simp at hAt

/-- The tasks of the queue, or of the reply with which the planner will be approved. -/
def tasksLeft (settings : Settings Id) (reply : String) (config : Config Id) : List Id :=
  if config.place.executes then config.state.todoTasks else (parsePlan settings.safeLoad reply).1

omit [DecidableEq Id] [Value Id] in
/-- What is left to do is linear in the tasks still queued. -/
theorem inputsLeft_le (config : Config Id) :
    inputsLeft config ≤ 3 * max 1 config.state.todoTasks.length + 1 := by
  obtain ⟨place, state⟩ := config
  unfold inputsLeft
  cases place with
  | coderTools => exact Nat.le_refl _
  | coder => exact Nat.le_succ _
  | tester =>
      dsimp only
      omega
  | queueManager =>
      dsimp only
      omega
  | _ => exact Nat.zero_le _

/-- A way from a configuration to the end of the workflow, with all tasks completed. The
inputs are answers that the environment may give. -/
structure Finishes (settings : Settings Id) (may : Config Id → Input → Prop) (reply : String)
    (tasks : List Id) (bound : Nat) (config : Config Id) (later : List Input)
    (finish : Config Id) : Prop where
  run : replay (step settings) config later = some finish
  answered : Along (step settings) (fun config input =>
    may config input ∧ Answers settings reply config input) config later
  length_le : later.length ≤ bound
  place : finish.place = .finished
  todo : finish.state.todoTasks = []
  completed : finish.state.completedTasks = tasks

theorem Finishes.cons {tasks : List Id} {bound : Nat} {config next finish : Config Id}
    {input : Input} {later : List Input}
    (h : Finishes settings may reply tasks bound next later finish)
    (hStep : step settings config input = some next)
    (hAnswer : may config input ∧ Answers settings reply config input) :
    Finishes settings may reply tasks (bound + 1) config (input :: later) finish where
  run := (replay_cons hStep later).trans h.run
  answered := h.answered.cons hStep hAnswer
  length_le := Nat.succ_le_succ h.length_le
  place := h.place
  todo := h.todo
  completed := h.completed

theorem Finishes.mono {tasks : List Id} {bound more : Nat} {config finish : Config Id}
    {later : List Input} (h : Finishes settings may reply tasks bound config later finish)
    (hMore : bound ≤ more) : Finishes settings may reply tasks more config later finish :=
  { h with length_le := h.length_le.trans hMore }

/-- Behind the planner all tasks left can be completed. -/
theorem Completing.finish {tasks : List Id} {config : Config Id} (h : Completing tasks config)
    (hOpen : Responsive settings may reply config) :
    ∃ later finish, Finishes settings may reply tasks
      (3 * max 1 config.state.todoTasks.length + 1) config later finish := by
  have hNext : ∀ config, Completing tasks config ∧ Responsive settings may reply config →
      ¬config.place = .finished → ∃ input next,
        (may config input ∧ Answers settings reply config input) ∧
        step settings config input = some next ∧
        (Completing tasks next ∧ Responsive settings may reply next) ∧
        inputsLeft next < inputsLeft config := by
    rintro config ⟨hCompleting, hOpen⟩ hPlace
    obtain ⟨input, next, hAnswer, hStep, hOpenNext⟩ := hOpen.answer hPlace
    obtain ⟨hGood, hLess⟩ := hCompleting.next hAnswer.2 hStep
    exact ⟨input, next, hAnswer, hStep, ⟨hGood, hOpenNext⟩, hLess⟩
  obtain ⟨later, finish, hRun, hAlong, hLength, ⟨hEnd, -⟩, hFinal⟩ :=
    exists_finish (fun config => config.place = .finished) inputsLeft hNext ⟨h, hOpen⟩
  have hTodo : finish.state.todoTasks = [] := by
    rcases hEnd.place with hPlace | hPlace | hPlace | hPlace | ⟨-, hTodo⟩
    · exact Place.noConfusion (hFinal.symm.trans hPlace)
    · exact Place.noConfusion (hFinal.symm.trans hPlace)
    · exact Place.noConfusion (hFinal.symm.trans hPlace)
    · exact Place.noConfusion (hFinal.symm.trans hPlace)
    · exact hTodo
  have hTasks := hEnd.tasks_eq
  rw [hTodo, List.append_nil] at hTasks
  exact ⟨later, finish, hRun, hAlong, hLength.trans (inputsLeft_le config), hFinal, hTodo, hTasks⟩

/-- The user goes ahead, and the plan that the model then replies with is completed. -/
theorem exists_finish_of_suspended {state : WorkflowState Id} {shown : String}
    (hOpen : Responsive settings may reply ⟨.suspended shown, state⟩) :
    ∃ later finish, Finishes settings may reply
      (state.completedTasks ++ (parsePlan settings.safeLoad reply).1)
      (3 * max 1 (parsePlan settings.safeLoad reply).1.length + 2) ⟨.suspended shown, state⟩
      later finish := by
  obtain ⟨input, next, hAnswer, hStep, hOpenNext⟩ := hOpen.answer Place.noConfusion
  obtain ⟨-, -, -, hHelps⟩ := hAnswer.2
  cases moves_of_step hStep with
  | approve _ _ response plan =>
      obtain rfl : plan = reply := hHelps.2
      have hCompleting : Completing (state.completedTasks ++ (parsePlan settings.safeLoad plan).1)
          ⟨.coder, afterApproval settings state plan⟩ := ⟨Or.inl rfl, rfl⟩
      obtain ⟨later, finish, hFinish⟩ := hCompleting.finish hOpenNext
      exact ⟨_ :: later, finish, hFinish.cons hStep hAnswer⟩
  | revise _ _ response plan hRejects =>
      exact absurd (hRejects.symm.trans hHelps.1) Bool.false_ne_true

/-- From the planner the end is reached through an approval at the next prompt. -/
theorem exists_finish_of_planner {state : WorkflowState Id}
    (hOpen : Responsive settings may reply ⟨.planner, state⟩) :
    ∃ later finish, Finishes settings may reply
      (state.completedTasks ++ (parsePlan settings.safeLoad reply).1)
      (3 * max 1 (parsePlan settings.safeLoad reply).1.length + 3) ⟨.planner, state⟩
      later finish := by
  obtain ⟨input, next, hAnswer, hStep, hOpenNext⟩ := hOpen.answer Place.noConfusion
  cases moves_of_step hStep with
  | draft _ draft =>
      obtain ⟨later, finish, hFinish⟩ := exists_finish_of_suspended hOpenNext
      exact ⟨_ :: later, finish, hFinish.cons hStep hAnswer⟩

/-- Wherever the run has not given up, the tasks left can be completed. -/
theorem exists_finish_of_responsive {config : Config Id}
    (hOpen : Responsive settings may reply config)
    (hPlace : config.place ≠ .giveUp ∧ config.place ≠ .finished) :
    ∃ later finish, Finishes settings may reply
      (config.state.completedTasks ++ tasksLeft settings reply config)
      (3 * max 1 (tasksLeft settings reply config).length + 3) config later finish := by
  obtain ⟨place, state⟩ := config
  have hBehind (hAt : place = .coder ∨ place = .coderTools ∨ place = .tester ∨
      place = .queueManager) (hExecutes : place.executes = true) :
      ∃ later finish, Finishes settings may reply
        (state.completedTasks ++ tasksLeft settings reply ⟨place, state⟩)
        (3 * max 1 (tasksLeft settings reply ⟨place, state⟩).length + 3) ⟨place, state⟩
        later finish := by
    have hCompleting : Completing (state.completedTasks ++ state.todoTasks) ⟨place, state⟩ :=
      ⟨hAt.imp_right fun h => h.imp_right fun h => h.imp_right Or.inl, rfl⟩
    obtain ⟨later, finish, hFinish⟩ := hCompleting.finish hOpen
    unfold tasksLeft
    rw [hExecutes, if_pos rfl]
    exact ⟨later, finish, hFinish.mono (Nat.add_le_add_left (by decide) _)⟩
  cases place with
  | planner => exact exists_finish_of_planner hOpen
  | suspended shown =>
      obtain ⟨later, finish, hFinish⟩ := exists_finish_of_suspended hOpen
      exact ⟨later, finish, hFinish.mono (Nat.le_succ _)⟩
  | coder => exact hBehind (by simp) rfl
  | coderTools => exact hBehind (by simp) rfl
  | tester => exact hBehind (by simp) rfl
  | queueManager => exact hBehind (by simp) rfl
  | giveUp => exact absurd rfl hPlace.1
  | finished => exact absurd rfl hPlace.2

/-- A run that has given up prints its report, and is over. -/
theorem exists_end_of_giveUp {config : Config Id} (hOpen : Responsive settings may reply config)
    (hPlace : config.place = .giveUp) :
    ∃ input finish, (may config input ∧ Answers settings reply config input) ∧
      step settings config input = some finish ∧ finish.place = .finished := by
  obtain ⟨place, state⟩ := config
  cases hPlace
  obtain ⟨input, finish, hAnswer, hStep, -⟩ := hOpen.answer Place.noConfusion
  refine ⟨input, finish, hAnswer, hStep, ?_⟩
  cases moves_of_step hStep with
  | giveUp => rfl

/-- Answers bring every configuration to an end. -/
theorem Responsive.finish {config : Config Id} (hOpen : Responsive settings may reply config) :
    ∃ later finish, replay (step settings) config later = some finish ∧
      Along (step settings) (fun config input =>
        may config input ∧ Answers settings reply config input) config later ∧
      finish.place = .finished ∧
      (config.place = .giveUp ∨ config.place = .finished ∨
        Finishes settings may reply
          (config.state.completedTasks ++ tasksLeft settings reply config)
          (3 * max 1 (tasksLeft settings reply config).length + 3) config later finish) := by
  by_cases hGiveUp : config.place = .giveUp
  · obtain ⟨input, finish, hAnswer, hStep, hEnd⟩ := exists_end_of_giveUp hOpen hGiveUp
    exact ⟨[input], finish, replay_cons hStep [], Along.cons hStep hAnswer trivial, hEnd,
      Or.inl hGiveUp⟩
  · by_cases hFinished : config.place = .finished
    · exact ⟨[], config, rfl, trivial, hFinished, Or.inr (Or.inl hFinished)⟩
    · obtain ⟨later, finish, hFinish⟩ := exists_finish_of_responsive hOpen ⟨hGiveUp, hFinished⟩
      exact ⟨later, finish, hFinish.run, hFinish.answered, hFinish.place,
        Or.inr (Or.inr hFinish)⟩

end Finish

end Orchestrator
