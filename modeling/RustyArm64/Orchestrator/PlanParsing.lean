import RustyArm64.Base.LastWriter
import RustyArm64.Orchestrator.PlanApproval

/-! The draft of a plan, as documents with separator lines between them, and what
the planner makes of it after an approval. -/
namespace Orchestrator

/-- Documents with lines of three dashes between them. -/
def joinDocuments (docs : List String) : String := "\n---\n".intercalate docs

section Pieces

theorem infix_dropWhile {chars : List Char} (h : dashes <:+: chars) :
    dashes <:+: chars.dropWhile isSpace := by
  induction chars with
  | nil => exact h
  | cons c rest ih =>
      rw [List.dropWhile_cons]
      split
      · rename_i hSpace
        rcases List.infix_cons_iff.mp h with hHead | hRest
        · obtain ⟨tail, hTail⟩ := hHead
          cases hTail
          simp [isSpace] at hSpace
        · exact ih hRest
      · exact h

/-- Stripping keeps every three dashes. -/
theorem infix_stripChars {chars : List Char} (h : dashes <:+: chars) :
    dashes <:+: stripChars chars := by
  have hReverse := List.reverse_infix.mpr (infix_dropWhile h)
  exact List.reverse_infix.mpr (infix_dropWhile hReverse)

/-- The pieces of documents without three dashes are the documents, but for blank
space. The first piece may have begun with some. -/
theorem map_stripChars_splitChars {docs : List (List Char)} (hSome : docs ≠ [])
    (hDashes : ∀ doc ∈ docs, ¬dashes <:+: doc) {piece : List Char}
    (hPiece : ∀ c ∈ piece, isSpace c = true) :
    (splitChars piece ("\n---\n".toList.intercalate docs)).map stripChars =
      docs.map stripChars := by
  have hReverse : ∀ c ∈ piece.reverse, isSpace c = true := fun c hC =>
    hPiece c (List.mem_reverse.mp hC)
  induction docs generalizing piece with
  | nil => exact (hSome rfl).elim
  | cons doc rest ih =>
      have hDoc := hDashes doc List.mem_cons_self
      cases rest with
      | nil =>
          have hPad := stripChars_pad hReverse (List.forall_mem_nil _) doc
          rw [List.append_nil] at hPad
          rw [List.intercalate_singleton, splitChars_of_not_infix hDoc]
          exact congrArg (fun head => [head]) hPad
      | cons second others =>
          have hText : "\n---\n".toList.intercalate (doc :: second :: others) =
              doc ++ '\n' :: dashes ++ '\n' :: "\n---\n".toList.intercalate (second :: others) := by
            rw [List.intercalate_cons_cons]
            simp
          have hNewline : ∀ c ∈ ['\n'], isSpace c = true := List.forall_mem_singleton.mpr rfl
          have hTail := ih (by simp)
            (fun other hOther => hDashes other (List.mem_cons_of_mem _ hOther)) hNewline hNewline
          rw [hText, splitChars_line hDoc, splitChars_cons [] (by simp), List.map_cons, hTail,
            stripChars_pad hReverse hNewline, ← List.map_cons]

/-- Documents without three dashes in them come back from the draft one by one, up to blanks
around them. -/
theorem map_strip_splitDashes {docs : List String} (hSome : docs ≠ [])
    (hDashes : ∀ doc ∈ docs, ¬dashes <:+: doc.toList) :
    (splitDashes (joinDocuments docs)).map strip = docs.map strip := by
  have hPieces := map_stripChars_splitChars (mt List.map_eq_nil_iff.mp hSome)
    (List.forall_mem_map.mpr hDashes) (List.forall_mem_nil _)
  have hText : (joinDocuments docs).toList =
      "\n---\n".toList.intercalate (docs.map String.toList) := String.toList_intercalate
  have hStrip : strip ∘ String.ofList = String.ofList ∘ stripChars := by
    funext chars
    simp [strip]
  rw [splitDashes, List.map_map, hText, hStrip, ← List.map_map, hPieces, List.map_map, List.map_map]
  rfl

end Pieces

variable {Id : Type} [DecidableEq Id] [Value Id] {safeLoad : String → Option (Yaml Id)}

/-- The planner looks at a piece without the blank space around it. -/
theorem addStep_congr {piece doc : String} (h : strip piece = strip doc)
    (steps : List Id × StepPlans Id) :
    addStep safeLoad steps piece = addStep safeLoad steps doc := by
  unfold addStep
  rw [h]

theorem foldl_addStep_congr {pieces docs : List String} (h : pieces.map strip = docs.map strip)
    (steps : List Id × StepPlans Id) :
    pieces.foldl (addStep safeLoad) steps = docs.foldl (addStep safeLoad) steps := by
  induction pieces generalizing docs steps with
  | nil =>
      rw [List.map_nil, List.nil_eq, List.map_eq_nil_iff] at h
      rw [h]
  | cons piece rest ih =>
      cases docs with
      | nil => cases h
      | cons doc others =>
          rw [List.map_cons, List.map_cons, List.cons.injEq] at h
          rw [List.foldl_cons, List.foldl_cons, addStep_congr h.1, ih h.2]

/-- A step plan is the text of some piece. -/
theorem get_foldl_addStep (pieces : List String) (steps : List Id × StepPlans Id) (id : Id)
    (default : String) :
    (pieces.foldl (addStep safeLoad) steps).2.get id default = steps.2.get id default ∨
      ∃ piece ∈ pieces, (pieces.foldl (addStep safeLoad) steps).2.get id default = strip piece := by
  induction pieces generalizing steps with
  | nil => exact Or.inl rfl
  | cons piece rest ih =>
      rw [List.foldl_cons]
      rcases ih (addStep safeLoad steps piece) with hKept | ⟨other, hOther, hStep⟩
      · rw [hKept]
        unfold addStep
        dsimp only
        split
        · exact Or.inl rfl
        · split
          · rename_i stepId title hLoad
            split
            · by_cases hId : stepId = id
              · rw [hId, StepPlans.get_set_self]
                exact Or.inr ⟨piece, List.mem_cons_self, rfl⟩
              · rw [StepPlans.get_set_of_ne _ hId]
                exact Or.inl rfl
            · exact Or.inl rfl
          · exact Or.inl rfl
      · exact Or.inr ⟨other, List.mem_cons_of_mem _ hOther, hStep⟩

/-- No step plan has three dashes in it. -/
theorem get_parsePlan_not_infix (safeLoad : String → Option (Yaml Id)) (draft : String) (id : Id) :
    ¬dashes <:+: ((parsePlan safeLoad draft).2.get id "").toList := by
  rcases get_foldl_addStep (splitDashes draft) ([], []) id "" with hNone | ⟨piece, hPiece, hStep⟩
  · rw [parsePlan, hNone]
    change ¬dashes <:+: "".toList
    decide
  · obtain ⟨chars, hChars, rfl⟩ := List.mem_map.mp hPiece
    rw [parsePlan, hStep, strip, String.toList_ofList, String.toList_ofList]
    intro hDashes
    have hInfix := stripChars_infix chars
    exact not_infix_of_mem_splitChars (scanned_nil _) hChars (hDashes.trans hInfix)

/-- A document that the YAML parser takes for a mapping with an id. -/
structure StepDocument (safeLoad : String → Option (Yaml Id)) where
  text : String
  id : Id
  title? : Option Id
  parses : safeLoad (strip text) = some (.mapping (some id) title?)
  /-- An id that is a string can be a key. -/
  hashable : Value.hashable id = true
  /-- YAML has no mapping without any text. -/
  written : strip text ≠ ""

/-- The draft with the documents in order. -/
def draftOf (docs : List (StepDocument safeLoad)) : String :=
  joinDocuments (docs.map StepDocument.text)

/-- `step_plans[step_id] = doc`. -/
def storeStep (plans : StepPlans Id) (doc : StepDocument safeLoad) : StepPlans Id :=
  plans.set doc.id (strip doc.text)

/-- A document of the plan adds its id and stores its text. -/
theorem addStep_document (doc : StepDocument safeLoad) (steps : List Id × StepPlans Id) :
    addStep safeLoad steps doc.text =
      (steps.1 ++ [doc.id], storeStep steps.2 doc) := by
  unfold addStep
  dsimp only
  rw [if_neg doc.written, doc.parses]
  exact if_pos doc.hashable

theorem foldl_addStep_documents (docs : List (StepDocument safeLoad))
    (steps : List Id × StepPlans Id) :
    (docs.map StepDocument.text).foldl (addStep safeLoad) steps =
      (steps.1 ++ docs.map StepDocument.id, docs.foldl storeStep steps.2) := by
  induction docs generalizing steps with
  | nil => simp
  | cons doc rest ih =>
      rw [List.map_cons, List.foldl_cons, addStep_document, ih]
      simp

/-- With no three dashes in the documents the plan has them all, the last one for
each id. -/
theorem parsePlan_draftOf {docs : List (StepDocument safeLoad)} (hSome : docs ≠ [])
    (hDashes : ∀ doc ∈ docs, ¬dashes <:+: doc.text.toList) :
    parsePlan safeLoad (draftOf docs) = (docs.map StepDocument.id, docs.foldl storeStep []) := by
  have hPieces := map_strip_splitDashes (mt List.map_eq_nil_iff.mp hSome)
    (List.forall_mem_map.mpr hDashes)
  rw [parsePlan, draftOf, foldl_addStep_congr hPieces, foldl_addStep_documents]
  rfl

/-- The text stored under an id is that of the last document with this id. -/
theorem get_foldl_storeStep (docs : List (StepDocument safeLoad)) (id : Id) (default : String) :
    (docs.foldl storeStep []).get id default =
      ((docs.reverse.find? fun doc => doc.id = id).map fun doc => strip doc.text).getD default := by
  refine LastWriter.foldl_eq_find? (fun plans : StepPlans Id => plans.get id default) ?_ ?_ docs []
  · intro plans doc hWrites
    rw [decide_eq_true_eq] at hWrites
    rw [← hWrites]
    exact StepPlans.get_set_self plans _ _ _
  · intro plans doc hOther
    rw [decide_eq_false_iff_not] at hOther
    exact StepPlans.get_set_of_ne plans hOther _ _

/-- The state after the approval of a draft has every document of it, in order and
at its own id, and the coder sees it when its turn comes. -/
structure PlanKept (docs : List (StepDocument safeLoad)) (planned : WorkflowState Id) : Prop where
  tasks : planned.todoTasks = docs.map StepDocument.id
  plans : ∀ i (h : i < docs.length) (default : String),
    planned.stepPlans.get docs[i].id default = strip docs[i].text
  seen : ∀ i (h : i < docs.length),
    currentStepPlan { planned with todoTasks := planned.todoTasks.drop i } = strip docs[i].text

/-- The documents come through the parsing of the draft: no three dashes anywhere,
one text for each id, and no id that the coder takes for the end of the queue. -/
structure Separable (docs : List (StepDocument safeLoad)) : Prop where
  dashes : ∀ doc ∈ docs, contains doc.text "---" = false
  ids : ∀ doc ∈ docs, ∀ other ∈ docs, doc.id = other.id → strip doc.text = strip other.text
  truthy : ∀ doc ∈ docs, Value.truthy doc.id = true ∨ strip doc.text = "No tasks left."

/-- At the i-th task the coder is given the text stored under its id, which is the i-th
document only if no later one has the same id. -/
theorem currentStepPlan_drop {docs : List (StepDocument safeLoad)} {planned : WorkflowState Id}
    (hTasks : planned.todoTasks = docs.map StepDocument.id) {i : Nat} (h : i < docs.length) :
    currentStepPlan { planned with todoTasks := planned.todoTasks.drop i } =
      if Value.truthy docs[i].id then planned.stepPlans.get docs[i].id "No step plan found."
      else "No tasks left." := by
  have hDrop : planned.todoTasks.drop i =
      docs[i].id :: (docs.drop (i + 1)).map StepDocument.id := by
    rw [hTasks, ← List.map_drop, List.drop_eq_getElem_cons h, List.map_cons]
  simp only [currentStepPlan, hDrop]

theorem contains_dashes_iff (text : String) :
    contains text "---" = false ↔ ¬dashes <:+: text.toList := by
  rw [← Bool.not_eq_true, contains, containsChars_iff]
  rfl

section Parsed

variable {settings : Settings Id} {docs : List (StepDocument settings.safeLoad)}
  {state : WorkflowState Id}

theorem planKept_of_separable (hSome : docs ≠ []) (h : Separable docs) :
    PlanKept docs (afterApproval settings state (draftOf docs)) := by
  have hParse := parsePlan_draftOf hSome fun doc hDoc =>
    (contains_dashes_iff doc.text).mp (h.dashes doc hDoc)
  have hTasks : (afterApproval settings state (draftOf docs)).todoTasks =
      docs.map StepDocument.id := congrArg Prod.fst hParse
  have hPlans : ∀ i (hi : i < docs.length) (default : String),
      (afterApproval settings state (draftOf docs)).stepPlans.get docs[i].id default =
        strip docs[i].text := by
    intro i hi default
    have hStore : (afterApproval settings state (draftOf docs)).stepPlans =
        docs.foldl storeStep [] := congrArg Prod.snd hParse
    have hMem : docs[i] ∈ docs.reverse := List.mem_reverse.mpr (List.getElem_mem hi)
    rw [hStore, get_foldl_storeStep]
    cases hFind : docs.reverse.find? fun doc => doc.id = docs[i].id with
    | none =>
        have hOther := List.find?_eq_none.mp hFind docs[i] hMem
        simp at hOther
    | some last =>
        have hId : last.id = docs[i].id := by simpa using List.find?_some hFind
        exact h.ids last (List.mem_reverse.mp (List.mem_of_find?_eq_some hFind)) docs[i]
          (List.getElem_mem hi) hId
  refine ⟨hTasks, hPlans, fun i hi => ?_⟩
  rw [currentStepPlan_drop hTasks hi, hPlans i hi]
  rcases h.truthy docs[i] (List.getElem_mem hi) with hTruthy | hPlaceholder
  · rw [if_pos hTruthy]
  · rw [hPlaceholder, ite_self]

/-- The other direction: a plan that is kept had no dashes inside a document. -/
theorem separable_of_planKept (h : PlanKept docs (afterApproval settings state (draftOf docs))) :
    Separable docs := by
  have hPlan : ∀ doc ∈ docs, ∀ default : String,
      (parsePlan settings.safeLoad (draftOf docs)).2.get doc.id default = strip doc.text := by
    intro doc hDoc default
    obtain ⟨i, hi, rfl⟩ := List.getElem_of_mem hDoc
    exact h.plans i hi default
  refine ⟨fun doc hDoc => ?_, fun doc hDoc other hOther hId => ?_, fun doc hDoc => ?_⟩
  · rw [contains_dashes_iff]
    intro hDashes
    have hNone := get_parsePlan_not_infix settings.safeLoad (draftOf docs) doc.id
    rw [hPlan doc hDoc, strip, String.toList_ofList] at hNone
    exact hNone (infix_stripChars hDashes)
  · rw [← hPlan doc hDoc "", ← hPlan other hOther "", hId]
  · obtain ⟨i, hi, rfl⟩ := List.getElem_of_mem hDoc
    have hSeen := h.seen i hi
    rw [currentStepPlan_drop h.tasks hi] at hSeen
    cases hTruthy : Value.truthy docs[i].id with
    | true => exact Or.inl rfl
    | false =>
        rw [hTruthy] at hSeen
        exact Or.inr hSeen.symm

/-- For an approved draft of documents that parse one by one: the plan keeps every
one of them exactly if they are separable. That a model writes such a draft is not said. -/
theorem plan_kept_iff (settings : Settings Id) (state : WorkflowState Id)
    (docs : List (StepDocument settings.safeLoad)) (hSome : docs ≠ []) (userResponse : String)
    (hApproves : approves userResponse = true) :
    PlanKept docs (state.merge (plannerUpdate settings (draftOf docs) userResponse)) ↔
      Separable docs := by
  rw [merge_approved settings state hApproves]
  exact ⟨separable_of_planKept, planKept_of_separable hSome⟩

/-- In every run that works off separable documents the coder has the first one
that is not completed in its prompt. -/
theorem coder_sees_document {goal : String} {inputs : List Input} {config : Config Id}
    (hRun : runOf settings goal inputs = some config) (hPlace : config.place = .coder)
    (hSome : docs ≠ []) (hSeparable : Separable docs) :
    ∃ a : Approval, inputs = a.inputs ∧ (a.reply = draftOf docs →
      ∃ h : config.state.completedTasks.length < docs.length,
        currentStepPlan config.state = strip docs[config.state.completedTasks.length].text) := by
  obtain ⟨a, hApproved⟩ := approved_of_executes hRun (by rw [hPlace]; rfl)
  refine ⟨a, hApproved.inputs_eq, fun hReply => ?_⟩
  have hKept : PlanKept docs (afterApproval settings config.state (draftOf docs)) :=
    planKept_of_separable hSome hSeparable
  have hConserved := hApproved.conserved
  have hPlans := hApproved.plans
  have hBusy := hApproved.busy (by rw [hPlace]; exact Place.noConfusion)
  rw [hReply] at hConserved hPlans hBusy
  have hTasks : (parsePlan settings.safeLoad (draftOf docs)).1 = docs.map StepDocument.id :=
    hKept.tasks
  rw [hTasks] at hConserved hBusy
  have hTodo : config.state.todoTasks ≠ [] := fun hNone =>
    hSome (List.map_eq_nil_iff.mp (hBusy hNone))
  have hLength : config.state.completedTasks.length < docs.length := by
    have hSum := congrArg List.length hConserved
    have hPos := List.length_pos_iff.mpr hTodo
    rw [List.length_append, List.length_map] at hSum
    omega
  have hDrop : config.state.todoTasks =
      (docs.map StepDocument.id).drop config.state.completedTasks.length := by
    rw [← hConserved, List.drop_left]
  refine ⟨hLength, ?_⟩
  rw [← hKept.seen _ hLength, hKept.tasks]
  unfold currentStepPlan
  rw [hDrop, hPlans]
  rfl

end Parsed

/-- Two documents without three dashes. -/
def separableDocuments : List (StepDocument loadIdLine) :=
  [⟨"id: a", "a", none, by decide +kernel, rfl, by decide +kernel⟩,
    ⟨"id: b", "b", none, by decide +kernel, rfl, by decide +kernel⟩]

theorem plan_kept_iff_separableDocuments :
    PlanKept separableDocuments ((initialState String "goal").merge
        (plannerUpdate idLineSettings (draftOf separableDocuments) "yes")) ↔
      Separable separableDocuments :=
  plan_kept_iff idLineSettings (initialState String "goal") separableDocuments
    (List.cons_ne_nil _ _) "yes" (by decide +kernel)

/-- One document, with a dash of three characters in its text. -/
def dashedDocument : StepDocument loadIdLine :=
  ⟨"id: a --- b", "a --- b", none, by decide +kernel, rfl, by decide +kernel⟩

/-- The plan has a task that the document does not name, and half of its text. -/
theorem dashes_split_document :
    approves "yes" = true ∧
    ((initialState String "goal").merge
        (plannerUpdate idLineSettings (draftOf [dashedDocument]) "yes")).todoTasks = ["a"] ∧
    ¬PlanKept [dashedDocument] ((initialState String "goal").merge
      (plannerUpdate idLineSettings (draftOf [dashedDocument]) "yes")) := by
  have hTasks : ((initialState String "goal").merge
      (plannerUpdate idLineSettings (draftOf [dashedDocument]) "yes")).todoTasks = ["a"] := by
    decide +kernel
  refine ⟨by decide +kernel, hTasks, fun hKept => ?_⟩
  have hId := hKept.tasks
  rw [hTasks] at hId
  revert hId
  decide

end Orchestrator
