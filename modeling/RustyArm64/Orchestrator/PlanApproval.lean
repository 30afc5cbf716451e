import RustyArm64.Orchestrator.Moves

/-! Every run waits for an approval and then works off the plan enqueued with it.
The plan is parsed from a draft that the user has not seen: the resumed planner
asks the model again. -/
namespace Orchestrator

open Replay

variable {Id : Type} [DecidableEq Id] [Value Id]

/-- An input of the planner. -/
def Input.toPlanner : Input → Bool
  | .draft _ => true
  | .resume _ _ => true
  | _ => false

/-- Places at which the plan is worked off, or has been. -/
def Place.executes : Place → Bool
  | .planner => false
  | .suspended _ => false
  | _ => true

/-- Before an approval nothing is enqueued or tested, and a suspended planner has
just been given the draft it shows. -/
structure Unapproved (inputs : List Input) (config : Config Id) : Prop where
  unapproved : config.state.planApproved = false
  completed : config.state.completedTasks = []
  untested : config.state.testsPassed = false ∧ config.state.testResults = ""
  place : config.place = .planner ∨ ∃ shown past,
    config.place = .suspended shown ∧ inputs = past ++ [.draft shown]

/-- The inputs of a run in which the planner was last told to go ahead: it had
shown `draft`, got `response`, and worked with `reply`. -/
structure Approval where
  before : List Input
  draft : String
  response : String
  reply : String
  after : List Input

def Approval.inputs (a : Approval) : List Input :=
  a.before ++ [.draft a.draft, .resume a.response a.reply] ++ a.after

/-- The state of a run after an approval: the tasks enqueued with it are the
completed ones and the ones left, in order. -/
structure Approved (settings : Settings Id) (a : Approval) (inputs : List Input)
    (config : Config Id) : Prop where
  inputs_eq : inputs = a.inputs
  approves : approves a.response = true
  planned : ∀ input ∈ a.after, input.toPlanner = false
  approved : config.state.planApproved = true
  plans : config.state.stepPlans = (parsePlan settings.safeLoad a.reply).2
  conserved : config.state.completedTasks ++ config.state.todoTasks =
    (parsePlan settings.safeLoad a.reply).1
  place : config.place.executes = true
  busy : config.place ≠ .finished → config.state.todoTasks = [] →
    (parsePlan settings.safeLoad a.reply).1 = []

/-- A step of an unapproved run shows a draft, revises it, or approves it. -/
theorem Unapproved.step {settings : Settings Id} {past : List Input} {config next : Config Id}
    {input : Input} (h : Unapproved past config) (hStep : step settings config input = some next) :
    Unapproved (past ++ [input]) next ∨ ∃ a, Approved settings a (past ++ [input]) next := by
  obtain ⟨hUnapproved, hCompleted, hUntested, hPlace⟩ := h
  cases moves_of_step hStep with
  | draft state reply =>
      exact Or.inl ⟨hUnapproved, hCompleted, hUntested, Or.inr ⟨reply, past, rfl, rfl⟩⟩
  | approve state shown response reply hApproves =>
      rcases hPlace with hPlanner | ⟨draft, before, hShown, rfl⟩
      · cases hPlanner
      · cases hShown
        refine Or.inr ⟨⟨before, shown, response, reply, []⟩, ?_⟩
        exact {
          inputs_eq := by simp [Approval.inputs]
          approves := hApproves
          planned := fun _ hInput => by cases hInput
          approved := rfl
          plans := rfl
          conserved := by
            change state.completedTasks ++ _ = _
            rw [hCompleted]
            rfl
          place := rfl
          busy := fun _ hTodo => hTodo }
  | revise state shown response reply hRejects =>
      exact Or.inl ⟨hUnapproved, hCompleted, hUntested,
        Or.inl (planEvaluator_of_unapproved state hUnapproved)⟩
  | coder => simp at hPlace
  | tools => simp at hPlace
  | test => simp at hPlace
  | emptyQueue => simp at hPlace
  | nextTask => simp at hPlace
  | giveUp => simp at hPlace

/-- A step behind the planner keeps the approval, if it moves tasks only from the
front of the queue to the completed ones. -/
theorem Approved.extend {settings : Settings Id} {a : Approval} {past : List Input}
    {config next : Config Id} {input : Input} (h : Approved settings a past config)
    (hInput : input.toPlanner = false) (hPlace : next.place.executes = true)
    (hApproved : next.state.planApproved = config.state.planApproved)
    (hPlans : next.state.stepPlans = config.state.stepPlans)
    (hTasks : next.state.completedTasks ++ next.state.todoTasks =
      config.state.completedTasks ++ config.state.todoTasks)
    (hBusy : next.place ≠ .finished → next.state.todoTasks = [] →
      config.place ≠ .finished ∧ config.state.todoTasks = []) :
    Approved settings { a with after := a.after ++ [input] } (past ++ [input]) next where
  inputs_eq := by simp [h.inputs_eq, Approval.inputs]
  approves := h.approves
  planned := by
    intro other hOther
    rcases List.mem_append.mp hOther with hPast | hLast
    · exact h.planned other hPast
    · rw [List.mem_singleton.mp hLast, hInput]
  approved := by rw [hApproved, h.approved]
  plans := by rw [hPlans, h.plans]
  conserved := by rw [hTasks, h.conserved]
  place := hPlace
  busy := by
    intro hNext hEmpty
    obtain ⟨hRunning, hTodo⟩ := hBusy hNext hEmpty
    exact h.busy hRunning hTodo

/-- After the approval, a step keeps what was decided then and only adds to the history. -/
theorem Approved.step {settings : Settings Id} {a : Approval} {past : List Input}
    {config next : Config Id} {input : Input} (h : Approved settings a past config)
    (hStep : step settings config input = some next) :
    Approved settings { a with after := a.after ++ [input] } (past ++ [input]) next := by
  have hPlace := h.place
  cases moves_of_step hStep with
  | draft => cases hPlace
  | approve => cases hPlace
  | revise => cases hPlace
  | coder state seedId response route hRoute =>
      refine h.extend rfl ?_ rfl rfl rfl fun _ hTodo => ⟨Place.noConfusion, hTodo⟩
      rcases coderRouter_place _ hRoute with hTools | hTester
      · rw [hTools]
        rfl
      · rw [hTester]
        rfl
  | tools state results update hUpdate =>
      exact h.extend rfl rfl rfl rfl rfl fun _ hTodo => ⟨Place.noConfusion, hTodo⟩
  | test state outcome =>
      refine h.extend rfl ?_ rfl rfl rfl fun _ hTodo => ⟨Place.noConfusion, hTodo⟩
      rcases placeAfterTest_cases state outcome with hPasses | hFails | hRetries
      · rw [hPasses]
        rfl
      · rw [hFails]
        rfl
      · rw [hRetries]
        rfl
  | emptyQueue state gitStatus hTodo =>
      exact h.extend rfl rfl rfl rfl rfl fun hNext => (hNext rfl).elim
  | giveUp state => exact h.extend rfl rfl rfl rfl rfl fun hNext => (hNext rfl).elim
  | nextTask state gitStatus task rest hTodo =>
      cases rest with
      | nil =>
          refine h.extend rfl rfl rfl rfl ?_ fun hNext => (hNext rfl).elim
          simp [afterTask, hTodo]
      | cons second others =>
          refine h.extend rfl rfl rfl rfl ?_ fun _ hEmpty => by cases hEmpty
          simp [afterTask, hTodo]

/-- The two phases of a run. -/
theorem phase_of_run {settings : Settings Id} {goal : String} {inputs : List Input}
    {config : Config Id} (hRun : runOf settings goal inputs = some config) :
    Unapproved inputs config ∨ ∃ a, Approved settings a inputs config := by
  refine replay_history
    (fun inputs config => Unapproved inputs config ∨ ∃ a, Approved settings a inputs config)
    (Or.inl ⟨rfl, rfl, ⟨rfl, rfl⟩, Or.inl rfl⟩) ?_ hRun
  intro past config input next _ hPhase hStep
  rcases hPhase with hUnapproved | ⟨a, hApproved⟩
  · exact hUnapproved.step hStep
  · exact Or.inr ⟨_, hApproved.step hStep⟩

/-- A run at the prompt has had no approval yet. -/
theorem unapproved_of_suspended {settings : Settings Id} {goal shown : String} {inputs : List Input}
    {state : WorkflowState Id}
    (hRun : runOf settings goal inputs = some ⟨.suspended shown, state⟩) :
    Unapproved inputs ⟨.suspended shown, state⟩ := by
  rcases phase_of_run hRun with hUnapproved | ⟨a, hApproved⟩
  · exact hUnapproved
  · cases hApproved.place

/-- A draft that is not approved goes back to the planner. -/
theorem planEvaluator_of_suspended {settings : Settings Id} {goal shown : String}
    {inputs : List Input} {state : WorkflowState Id}
    (hRun : runOf settings goal inputs = some ⟨.suspended shown, state⟩) :
    (planEvaluator state).place = .planner :=
  planEvaluator_of_unapproved state (unapproved_of_suspended hRun).unapproved

/-- A draft input leaves the planner suspended, with that draft shown. -/
theorem surfaced_of_run {settings : Settings Id} {goal draft : String} {past later : List Input}
    {config : Config Id}
    (hRun : runOf settings goal (past ++ [.draft draft] ++ later) = some config) :
    ∃ state, runOf settings goal (past ++ [.draft draft]) = some ⟨.suspended draft, state⟩ := by
  obtain ⟨middle, hPast, -⟩ := replay_prefix hRun
  obtain ⟨before, -, hStep⟩ := replay_snoc_eq_some.mp hPast
  cases moves_of_step hStep with
  | draft state reply => exact ⟨state, hPast⟩

/-- Behind the planner there has been an approval. -/
theorem approved_of_executes {settings : Settings Id} {goal : String} {inputs : List Input}
    {config : Config Id} (hRun : runOf settings goal inputs = some config)
    (hPlace : config.place.executes = true) : ∃ a, Approved settings a inputs config := by
  rcases phase_of_run hRun with hUnapproved | hApproved
  · rcases hUnapproved.place with hPlanner | ⟨shown, past, hShown, -⟩
    · rw [hPlanner] at hPlace
      cases hPlace
    · rw [hShown] at hPlace
      cases hPlace
  · exact hApproved

/-- The coder runs only after an approval. The plan it works off is parsed from the
draft shown last exactly if the reply that the model gave to the resumed planner
parses to the same steps. -/
theorem plan_is_surfaced_iff (settings : Settings Id) (goal : String) (inputs : List Input)
    (config : Config Id) (hRun : runOf settings goal inputs = some config)
    (hPlace : config.place = .coder) :
    config.state.planApproved = true ∧
    ∃ a : Approval, inputs = a.inputs ∧ approves a.response = true ∧
      (∀ input ∈ a.after, input.toPlanner = false) ∧
      (∃ state, runOf settings goal (a.before ++ [.draft a.draft]) =
        some ⟨.suspended a.draft, state⟩) ∧
      ((config.state.completedTasks ++ config.state.todoTasks =
          (parsePlan settings.safeLoad a.draft).1 ∧
        config.state.stepPlans = (parsePlan settings.safeLoad a.draft).2) ↔
        parsePlan settings.safeLoad a.reply = parsePlan settings.safeLoad a.draft) := by
  obtain ⟨a, hApproved⟩ := approved_of_executes hRun (by rw [hPlace]; rfl)
  refine ⟨hApproved.approved, a, hApproved.inputs_eq, hApproved.approves, hApproved.planned, ?_, ?_⟩
  · have hShown : runOf settings goal
        (a.before ++ [.draft a.draft] ++ ([.resume a.response a.reply] ++ a.after)) =
          some config := by
      rw [← hRun, hApproved.inputs_eq]
      simp [Approval.inputs]
    exact surfaced_of_run hShown
  · rw [hApproved.conserved, hApproved.plans, Prod.ext_iff]

instance : Value String where
  truthy id := id ≠ ""
  hashable _ := true
  str id := id

/-- Documents of one line `id: <text>`. -/
def loadIdLine (doc : String) : Option (Yaml String) :=
  if "id: ".toList.isPrefixOf doc.toList then
    some (.mapping (some (String.ofList (doc.toList.drop 4))) none)
  else some .other

def idLineSettings : Settings String :=
  { plannerPrompt := "Plan."
    baseSystemPrompt := "Code."
    maxToolCalls := 20
    safeLoad := loadIdLine }

/-- The configuration after the plan `id: a` was shown, and the reply `id: a` or
another one was parsed. -/
def approvedConfig (reply : String) : Config String :=
  ⟨.coder, afterApproval idLineSettings (initialState String "goal") reply⟩

theorem plan_is_surfaced_iff_idLine :
    (approvedConfig "id: a").state.planApproved = true ∧
    ∃ a : Approval, [.draft "id: a", .resume "yes" "id: a"] = a.inputs ∧
      approves a.response = true ∧
      (∀ input ∈ a.after, input.toPlanner = false) ∧
      (∃ state, runOf idLineSettings "goal" (a.before ++ [.draft a.draft]) =
        some ⟨.suspended a.draft, state⟩) ∧
      (((approvedConfig "id: a").state.completedTasks ++ (approvedConfig "id: a").state.todoTasks =
          (parsePlan idLineSettings.safeLoad a.draft).1 ∧
        (approvedConfig "id: a").state.stepPlans = (parsePlan idLineSettings.safeLoad a.draft).2) ↔
        parsePlan idLineSettings.safeLoad a.reply = parsePlan idLineSettings.safeLoad a.draft) :=
  plan_is_surfaced_iff idLineSettings "goal" [.draft "id: a", .resume "yes" "id: a"]
    (approvedConfig "id: a") (by decide +kernel) rfl

/-- The user approves a plan of task `a`, and the coder is given task `b`. -/
theorem approved_plan_not_surfaced :
    runOf idLineSettings "goal" [.draft "id: a"] =
      some ⟨.suspended "id: a", initialState String "goal"⟩ ∧
    runOf idLineSettings "goal" [.draft "id: a", .resume "yes" "id: b"] =
      some (approvedConfig "id: b") ∧
    (approvedConfig "id: b").place = .coder ∧
    (approvedConfig "id: b").state.todoTasks = ["b"] ∧
    (approvedConfig "id: b").state.stepPlans = [("b", "id: b")] ∧
    parsePlan idLineSettings.safeLoad "id: a" = (["a"], [("a", "id: a")]) := by
  refine ⟨?_, ?_, rfl, ?_, ?_, ?_⟩ <;> decide +kernel

end Orchestrator
