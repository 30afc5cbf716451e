import RustyArm64.Orchestrator.PlanApproval

/-! Which responses the planner takes as consent. It looks for a keyword anywhere
in the response, so that a sentence with a `y` in it is an approval. -/
namespace Orchestrator

/-- The response, stripped and lower-cased, is one of the keywords. -/
def IsKeyword (userResponse : String) : Prop := lower (strip userResponse) ∈ approvalKeywords

/-- The keyword occurs somewhere in the stripped and lower-cased response. -/
def Mentions (userResponse keyword : String) : Prop :=
  keyword.toList <:+: (lower (strip userResponse)).toList

/-- Approval is a search for substrings. Where a keyword stands in the reply, and what is
said around it, does not count. -/
theorem approves_iff_mentions (userResponse : String) :
    approves userResponse = true ↔ ∃ keyword ∈ approvalKeywords, Mentions userResponse keyword := by
  simp only [approves, List.any_eq_true, contains, containsChars_iff, Mentions]

/-- A bare keyword approves, in any case and with any blanks around it. -/
theorem IsKeyword.approves {userResponse : String} (h : IsKeyword userResponse) :
    approves userResponse = true :=
  (approves_iff_mentions userResponse).mpr ⟨_, h, List.infix_rfl⟩

variable {Id : Type} [DecidableEq Id] [Value Id]

/-- The resumed planner in one step. The draft kept is the reply of the resumed execution,
and the draft that was shown is not looked at. -/
theorem step_resume (settings : Settings Id) (state : WorkflowState Id)
    (shown userResponse reply : String) :
    step settings ⟨.suspended shown, state⟩ (.resume userResponse reply) =
      some ⟨(planEvaluator (state.merge (plannerUpdate settings reply userResponse))).place,
        state.merge (plannerUpdate settings reply userResponse)⟩ := rfl

/-- The contract of the planner for a response: it approves on a keyword, and takes any
other response as feedback. The draft that it keeps is the reply of the resumed execution,
which need not be the one shown at the prompt. What was shown has no effect. -/
structure PlannerContract (settings : Settings Id) (state : WorkflowState Id)
    (shown userResponse reply : String) : Prop where
  approves_iff : (plannerUpdate settings reply userResponse).planApproved = some true ↔
    IsKeyword userResponse
  feedback : ¬IsKeyword userResponse → ∃ next,
    step settings ⟨.suspended shown, state⟩ (.resume userResponse reply) = some next ∧
    next.place = .planner ∧ next.state.planApproved = false ∧
    next.state.planFeedback = some userResponse ∧ next.state.planDraft = some reply ∧
    next.state.todoTasks = state.todoTasks

/-- The flag that the planner returns is the verdict on the response, whatever the draft. -/
theorem plannerUpdate_approved (settings : Settings Id) (reply userResponse : String) :
    (plannerUpdate settings reply userResponse).planApproved = some true ↔
      approves userResponse = true := by
  unfold plannerUpdate
  split
  · rename_i hApproves
    exact iff_of_true rfl hApproves
  · rename_i hRejects
    exact iff_of_false (by simp) hRejects

/-- The planner keeps its contract exactly for the keywords themselves and for the
responses in which no keyword occurs. The draft it keeps is the second reply, which need
not be the one that was shown. -/
theorem planner_contract_iff (settings : Settings Id) (goal : String) (inputs : List Input)
    (shown : String) (state : WorkflowState Id)
    (hRun : runOf settings goal inputs = some ⟨.suspended shown, state⟩)
    (userResponse reply : String) :
    PlannerContract settings state shown userResponse reply ↔
      IsKeyword userResponse ∨ ∀ keyword ∈ approvalKeywords, ¬Mentions userResponse keyword := by
  have hUnapproved := (unapproved_of_suspended hRun).unapproved
  constructor
  · rintro ⟨hApproves, -⟩
    by_cases hKeyword : IsKeyword userResponse
    · exact Or.inl hKeyword
    · refine Or.inr fun keyword hIn hMentions => hKeyword (hApproves.mp ?_)
      rw [plannerUpdate_approved, approves_iff_mentions]
      exact ⟨keyword, hIn, hMentions⟩
  · intro hCondition
    have hExact : approves userResponse = true ↔ IsKeyword userResponse := by
      refine ⟨fun hApproves => ?_, IsKeyword.approves⟩
      obtain ⟨keyword, hIn, hMentions⟩ := (approves_iff_mentions userResponse).mp hApproves
      exact hCondition.resolve_right fun hNone => hNone keyword hIn hMentions
    refine ⟨(plannerUpdate_approved settings reply userResponse).trans hExact, fun hOther => ?_⟩
    have hRejects : approves userResponse = false := by
      rw [← Bool.not_eq_true, hExact]
      exact hOther
    refine ⟨_, step_resume settings state shown userResponse reply, ?_⟩
    rw [merge_revised settings state hRejects]
    exact ⟨planEvaluator_of_unapproved _ hUnapproved, hUnapproved, rfl, rfl, rfl⟩

theorem planner_contract_iff_no :
    PlannerContract idLineSettings (initialState String "goal") "id: a" "no" "id: b" ↔
      IsKeyword "no" ∨ ∀ keyword ∈ approvalKeywords, ¬Mentions "no" keyword :=
  planner_contract_iff idLineSettings "goal" [.draft "id: a"] "id: a" (initialState String "goal")
    (by decide +kernel) "no" "id: b"

/-- `No, try again` is no keyword, and the plan is worked off. -/
theorem try_again_approves :
    runOf idLineSettings "goal" [.draft "id: a"] =
      some ⟨.suspended "id: a", initialState String "goal"⟩ ∧
    ¬IsKeyword "No, try again" ∧
    step idLineSettings ⟨.suspended "id: a", initialState String "goal"⟩
      (.resume "No, try again" "id: a") = some (approvedConfig "id: a") ∧
    (approvedConfig "id: a").place = .coder ∧ (approvedConfig "id: a").state.todoTasks = ["a"] ∧
    ¬PlannerContract idLineSettings (initialState String "goal") "id: a" "No, try again"
      "id: a" := by
  have hNoKeyword : ¬IsKeyword "No, try again" := by
    unfold IsKeyword
    decide +kernel
  refine ⟨by decide +kernel, hNoKeyword, by decide +kernel, rfl, by decide +kernel, ?_⟩
  rintro ⟨hApproves, -⟩
  exact hNoKeyword (hApproves.mp (by decide +kernel))

end Orchestrator
