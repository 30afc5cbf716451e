import RustyArm64.Orchestrator.PlanApproval

/-! The task at the head of the queue: the steps that put another one there, and
what an observer notes of a run since the last of them. -/
namespace Orchestrator

open Replay

section Change

variable {Id : Type}

/-- An approval puts the first task at the head, and the queue manager the next
one, as it moves a task to the completed ones. -/
def HeadChanged (prev next : Config Id) : Prop :=
  next.state.planApproved ≠ prev.state.planApproved ∨
    next.state.completedTasks ≠ prev.state.completedTasks

instance [DecidableEq Id] (prev next : Config Id) : Decidable (HeadChanged prev next) :=
  inferInstanceAs (Decidable (_ ∨ _))

/-- The head stays while neither the approval nor the list of completed tasks changes. -/
theorem not_headChanged {prev next : Config Id}
    (hApproved : next.state.planApproved = prev.state.planApproved)
    (hCompleted : next.state.completedTasks = prev.state.completedTasks) :
    ¬HeadChanged prev next := by
  rintro (hNe | hNe)
  · exact hNe hApproved
  · exact hNe hCompleted

/-- Completing a task changes the head, also when the next task has the same id. -/
theorem headChanged_nextTask (state : WorkflowState Id) (task : Id) (rest : List Id)
    (place : Place) : HeadChanged ⟨.queueManager, state⟩ ⟨place, afterTask state task rest⟩ :=
  Or.inr (by simp [afterTask])

end Change

variable {Id : Type} [DecidableEq Id] [Value Id]

section Since

variable {Seen : Type} (settings : Settings Id) (goal : String) (zero : Seen)
  (note : Seen → Input → Config Id → Seen)

/-- The notes of a run, cleared whenever the head changes. -/
def sinceHead (inputs : List Input) : Seen :=
  record (step settings)
    (fun seen prev input next => if HeadChanged prev next then zero else note seen input next)
    zero (start Id goal) inputs

variable {settings goal} {past : List Input} {prev next : Config Id} {input : Input}

/-- A record kept for the head task goes on while the head stays. -/
theorem sinceHead_kept (hRun : runOf settings goal past = some prev)
    (hStep : step settings prev input = some next) (hHead : ¬HeadChanged prev next) :
    sinceHead settings goal zero note (past ++ [input]) =
      note (sinceHead settings goal zero note past) input next := by
  rw [sinceHead, record_snoc _ hRun hStep, if_neg hHead]
  rfl

/-- It starts again with a new head. -/
theorem sinceHead_changed (hRun : runOf settings goal past = some prev)
    (hStep : step settings prev input = some next) (hHead : HeadChanged prev next) :
    sinceHead settings goal zero note (past ++ [input]) = zero := by
  rw [sinceHead, record_snoc _ hRun hStep, if_pos hHead]

end Since

/-- The approval brings the first head. A run approves once at most. -/
theorem headChanged_approve {settings : Settings Id} {goal shown : String} {past : List Input}
    {state : WorkflowState Id} (hRun : runOf settings goal past = some ⟨.suspended shown, state⟩)
    (reply : String) :
    HeadChanged ⟨.suspended shown, state⟩ ⟨.coder, afterApproval settings state reply⟩ := by
  refine Or.inl fun hSame => ?_
  have hUnapproved := (unapproved_of_suspended hRun).unapproved
  dsimp only at hSame hUnapproved
  rw [hUnapproved] at hSame
  cases hSame

/-- As long as tasks are worked off, there is room in the plan for the one that is
not completed yet. -/
theorem room_of_run {settings : Settings Id} {goal : String} {inputs : List Input}
    {config : Config Id} (hRun : runOf settings goal inputs = some config)
    (hPlace : config.place.executes = true) (hBusy : config.place ≠ .finished) :
    config.state.completedTasks.length + 1 ≤
      max 1 (config.state.completedTasks ++ config.state.todoTasks).length := by
  obtain ⟨a, hApproved⟩ := approved_of_executes hRun hPlace
  cases hTodo : config.state.todoTasks with
  | nil =>
      have hEmpty := hApproved.conserved.trans (hApproved.busy hBusy hTodo)
      rw [List.append_eq_nil_iff] at hEmpty
      rw [hEmpty.1]
      exact Nat.le_max_left 1 _
  | cons task rest =>
      rw [List.length_append, List.length_cons]
      omega

end Orchestrator
