import RustyArm64.Base.Outstanding
import RustyArm64.Orchestrator.Messages
import RustyArm64.Orchestrator.PlanApproval

/-! Tool calls and their answers in what the coder sends to the model. A call that
a checkpoint left without an answer is dropped from one request only: it stays
in the state, and every later turn buries it deeper. -/
namespace Orchestrator

open Replay

/-- The tool calls that no later message answers. -/
def pendingCalls (messages : List Message) : List String :=
  Outstanding.pending Message.calls Message.answers messages

/-- Each tool call of each AI message has a tool message with its id further on. -/
def Answered (messages : List Message) : Prop :=
  ∀ before m after, messages = before ++ m :: after →
    ∀ key ∈ m.calls, ∃ other ∈ after, key ∈ other.answers

/-- A history is answered when no call is pending in it. -/
theorem answered_iff (messages : List Message) : Answered messages ↔ pendingCalls messages = [] :=
  Outstanding.pending_eq_nil_iff.symm

/-- The tool calls of the last message. -/
def lastCalls (messages : List Message) : List String :=
  (messages.getLast?.map Message.calls).getD []

theorem lastCalls_snoc (messages : List Message) (m : Message) :
    lastCalls (messages ++ [m]) = m.calls := by
  simp [lastCalls]

/-- A message that calls tools answers none. -/
theorem answers_of_calls {m : Message} (h : m.calls ≠ []) : m.answers = [] := by
  obtain ⟨id, body⟩ := m
  cases body with
  | ai => rfl
  | tool => exact absurd rfl h
  | system => rfl
  | human => rfl

/-- A message without answers leaves open what was, and adds its own calls. -/
theorem pendingCalls_snoc (messages : List Message) {m : Message} (h : m.answers = []) :
    pendingCalls (messages ++ [m]) = pendingCalls messages ++ m.calls :=
  Outstanding.pending_snoc h

/-- In an answered history the last message calls nothing. -/
theorem lastCalls_of_answered {messages : List Message} (h : pendingCalls messages = []) :
    lastCalls messages = [] := by
  rcases List.eq_nil_or_concat messages with rfl | ⟨past, m, rfl⟩
  · rfl
  · rw [List.concat_eq_append] at h ⊢
    rw [lastCalls_snoc]
    by_contra hCalls
    rw [pendingCalls_snoc past (answers_of_calls hCalls)] at h
    exact hCalls (List.append_eq_nil_iff.mp h).2

section Sanitize

theorem isOrphan_of_no_calls (resolved : List String) {m : Message} (h : m.calls = []) :
    isOrphan resolved m = false := by
  obtain ⟨id, body⟩ := m
  cases body with
  | ai content toolCalls =>
      have hNone : toolCalls = [] := List.map_eq_nil_iff.mp h
      simp [isOrphan, hNone]
  | tool => rfl
  | system => rfl
  | human => rfl

theorem mem_answers_of_resolved {messages : List Message} {key : String}
    (h : key ∈ resolvedCalls messages) : ∃ m ∈ messages, key ∈ m.answers := by
  obtain ⟨m, hM, hKey⟩ := List.mem_filterMap.mp h
  refine ⟨m, hM, ?_⟩
  obtain ⟨id, body⟩ := m
  cases body with
  | tool callId content =>
      dsimp only at hKey
      split at hKey
      · cases hKey
        exact List.mem_singleton.mpr rfl
      · cases hKey
  | ai => cases hKey
  | system => cases hKey
  | human => cases hKey

/-- Nothing is dropped behind a last message without tool calls. -/
theorem sanitizeHistory_eq {messages : List Message} (h : lastCalls messages = []) :
    sanitizeHistory messages = messages := by
  rcases List.eq_nil_or_concat messages with rfl | ⟨past, m, rfl⟩
  · rfl
  · rw [List.concat_eq_append, lastCalls_snoc] at h
    simp [sanitizeHistory, isOrphan_of_no_calls _ h]

/-- The last message makes tool calls, and none of them has been executed. -/
structure Orphaned (base : List Message) (orphan : Message) : Prop where
  calls : orphan.calls ≠ []
  never : ∀ key ∈ orphan.calls, ∀ m ∈ base, key ∉ m.answers

/-- A trailing message with open calls is what the repair removes. -/
theorem Orphaned.isOrphan {base : List Message} {orphan : Message} (h : Orphaned base orphan) :
    isOrphan (resolvedCalls (base ++ [orphan])) orphan = true := by
  obtain ⟨key, hKey⟩ := List.exists_mem_of_ne_nil _ h.calls
  have hOpen : key ∉ resolvedCalls (base ++ [orphan]) := by
    intro hResolved
    obtain ⟨m, hM, hAnswers⟩ := mem_answers_of_resolved hResolved
    rcases List.mem_append.mp hM with hBase | hLast
    · exact h.never key hKey m hBase hAnswers
    · rw [List.mem_singleton.mp hLast, answers_of_calls h.calls] at hAnswers
      cases hAnswers
  obtain ⟨id, body⟩ := orphan
  cases body with
  | ai content toolCalls =>
      obtain ⟨call, hCall, rfl⟩ := List.mem_map.mp hKey
      rw [Orchestrator.isOrphan, List.any_eq_true]
      exact ⟨call, hCall, by simpa using hOpen⟩
  | tool => cases hKey
  | system => cases hKey
  | human => cases hKey

/-- The repair works on the list it is given. -/
theorem sanitizeHistory_orphan {base : List Message} {orphan : Message} (hBase : Answered base)
    (hOrphan : Orphaned base orphan) : sanitizeHistory (base ++ [orphan]) = base := by
  have hLast := lastCalls_of_answered ((answered_iff base).mp hBase)
  have hDrop := hOrphan.isOrphan
  rw [sanitizeHistory, List.reverse_append, List.reverse_singleton, List.singleton_append,
    List.dropWhile_cons_of_pos hDrop]
  generalize resolvedCalls (base ++ [orphan]) = resolved
  rcases List.eq_nil_or_concat base with rfl | ⟨past, m, rfl⟩
  · rfl
  · rw [List.concat_eq_append] at hLast ⊢
    rw [lastCalls_snoc] at hLast
    simp [isOrphan_of_no_calls _ hLast]

end Sanitize

def Input.isGitStatus : Input → Bool
  | .gitStatus _ => true
  | _ => false

/-- The calls of the checkpoint that are still unanswered in the state. Only the
queue manager clears them away. -/
def stillOwed (owed : List String) (inputs : List Input) : List String :=
  if inputs.any Input.isGitStatus then [] else owed

theorem stillOwed_snoc (owed : List String) (inputs : List Input) {input : Input}
    (h : input.isGitStatus = false) :
    stillOwed owed (inputs ++ [input]) = stillOwed owed inputs := by
  simp [stillOwed, h]

/-- Completing the task clears the history, and with it what was owed. -/
theorem stillOwed_gitStatus (owed : List String) (inputs : List Input) (stdout : String) :
    stillOwed owed (inputs ++ [.gitStatus stdout]) = [] := by
  simp [stillOwed, Input.isGitStatus]

variable {Id : Type}

/-- The tool history at a place of a run that owes `owed`. -/
def HistoryRecord (owed : List String) (resumed : Prop) (config : Config Id) : Prop :=
  match config.place with
  | .planner | .suspended _ => config.state.messages = [] ∧ owed = []
  | .coder => pendingCalls config.state.messages = owed ∧
      (resumed ∨ lastCalls config.state.messages = [])
  | .coderTools =>
      pendingCalls config.state.messages = owed ++ lastCalls config.state.messages ∧
      ∀ key ∈ lastCalls config.state.messages, key ∉ owed
  | .tester => pendingCalls config.state.messages = owed ∧ lastCalls config.state.messages = []
  | _ => True

section Turns

variable {settings : Settings Id} {state : WorkflowState Id}

/-- A coder turn adds the calls of the reply. -/
theorem pendingCalls_afterCoder {seedId : String} {response : AiMessage}
    (hFresh : FreshMessageIds settings state (.coder seedId response)) :
    pendingCalls (afterCoder state settings seedId response).messages =
      pendingCalls state.messages ++ response.toMessage.calls := by
  rw [afterCoder_messages hFresh, coderMessages, ← List.append_assoc,
    pendingCalls_snoc _ (m := response.toMessage) rfl]
  split
  · rw [pendingCalls_snoc _ rfl]
    exact congrArg (· ++ _) (List.append_nil _)
  · rw [List.append_nil]

/-- After the coder its own reply stands last. -/
theorem getLast?_afterCoder {seedId : String} {response : AiMessage}
    (hFresh : FreshMessageIds settings state (.coder seedId response)) :
    (afterCoder state settings seedId response).messages.getLast? = some response.toMessage := by
  rw [afterCoder_messages hFresh, coderMessages, ← List.append_assoc, List.getLast?_concat]

/-- The next node depends on the reply alone, not on the budget. -/
theorem coderRouter_afterCoder {seedId : String} {response : AiMessage}
    (hFresh : FreshMessageIds settings state (.coder seedId response)) :
    coderRouter (afterCoder state settings seedId response) =
      some (if response.toolCalls.isEmpty then .tester else .coderTools) := by
  rw [coderRouter, getLast?_afterCoder hFresh]
  rfl

/-- No id of the reply is owed. -/
theorem calls_not_pending {seedId : String} {response : AiMessage}
    (hFresh : FreshCalls state (.coder seedId response)) :
    ∀ key ∈ response.toMessage.calls, key ∉ pendingCalls state.messages := by
  intro key hKey hPending
  obtain ⟨m, hM, hCall⟩ := Outstanding.mem_opens_of_mem_pending hPending
  exact hFresh m hM key hKey hCall

/-- The tool node leaves no call at the end. -/
theorem lastCalls_afterTools {results : List (String × String)} {update : Update Id}
    (hUpdate : toolNode state results = some update)
    (hFresh : FreshMessageIds settings state (.tools results)) :
    lastCalls (addMessages state.messages (update.messages.getD [])) = [] := by
  obtain ⟨id, content, toolCalls, hLast, hLength, hMessages⟩ := toolNode_messages hUpdate hFresh
  rw [hMessages]
  rcases List.eq_nil_or_concat (toolMessages toolCalls results) with hNone | ⟨past, m, hSome⟩
  · have hEmpty : toolCalls.map ToolCall.id = [] := by
      rw [← answers_toolMessages hLength, hNone]
      rfl
    rw [hNone, List.append_nil, lastCalls, hLast]
    exact hEmpty
  · have hM : m ∈ toolMessages toolCalls results := by simp [hSome]
    rw [hSome, List.concat_eq_append, ← List.append_assoc, lastCalls_snoc]
    exact calls_of_mem_toolMessages hM

/-- The tool node answers just what the last message has added. -/
theorem pendingCalls_afterTools {results : List (String × String)} {update : Update Id}
    {owed : List String} (hUpdate : toolNode state results = some update)
    (hFresh : FreshMessageIds settings state (.tools results))
    (hPending : pendingCalls state.messages = owed ++ lastCalls state.messages)
    (hDisjoint : ∀ key ∈ lastCalls state.messages, key ∉ owed) :
    pendingCalls (addMessages state.messages (update.messages.getD [])) = owed := by
  obtain ⟨id, content, toolCalls, hLast, hLength, hMessages⟩ := toolNode_messages hUpdate hFresh
  have hCalls : lastCalls state.messages = toolCalls.map ToolCall.id := by
    rw [lastCalls, hLast]
    rfl
  rw [hMessages, pendingCalls,
    Outstanding.pending_append_of_opens fun m hM => calls_of_mem_toolMessages hM,
    answers_toolMessages hLength, ← hCalls, ← pendingCalls, hPending, List.filter_append,
    List.filter_eq_self.mpr, List.filter_eq_nil_iff.mpr, List.append_nil]
  · intro key hKey
    simpa using hKey
  · intro key hKey
    simpa using fun hCall => hDisjoint key hCall hKey

/-- The prompt and the requests to begin or to wrap up have no part in it. -/
theorem pendingCalls_coderRequest [DecidableEq Id] [Value Id] :
    pendingCalls (coderRequest settings state) = pendingCalls (sanitizeHistory state.messages) := by
  have hHistory : pendingCalls (coderHistory settings state) =
      pendingCalls (sanitizeHistory state.messages) := by
    unfold coderHistory
    dsimp only
    split
    · rw [pendingCalls_snoc _ rfl]
      exact List.append_nil _
    · rfl
  rw [← hHistory]
  unfold coderRequest
  dsimp only
  split
  · rename_i hNone
    rw [hNone]
    rfl
  · rfl

end Turns

/-- An empty conversation owes nothing. -/
theorem HistoryRecord.of_empty {resumed : Prop} {state : WorkflowState Id}
    (h : state.messages = []) : HistoryRecord [] resumed ⟨.coder, state⟩ := by
  unfold HistoryRecord
  dsimp only
  rw [h]
  exact ⟨rfl, Or.inr rfl⟩

/-- A coder turn leaves the calls of its reply open, beside what is owed. -/
theorem HistoryRecord.coder {settings : Settings Id} {owed : List String} {resumed : Prop}
    {state : WorkflowState Id} {seedId : String} {response : AiMessage}
    (h : HistoryRecord owed resumed ⟨.coder, state⟩)
    (hFresh : FreshIds settings state (.coder seedId response)) (later : Prop) :
    HistoryRecord owed later ⟨if response.toolCalls.isEmpty then .tester else .coderTools,
      afterCoder state settings seedId response⟩ := by
  have hPending := pendingCalls_afterCoder hFresh.1
  have hNew := calls_not_pending hFresh.2
  have hLast : lastCalls (afterCoder state settings seedId response).messages =
      response.toMessage.calls := by
    rw [lastCalls, getLast?_afterCoder hFresh.1]
    rfl
  obtain ⟨hOwed, -⟩ := h
  dsimp only at hOwed
  rw [hOwed] at hPending hNew
  cases hCalls : response.toolCalls with
  | nil =>
      have hNone : response.toMessage.calls = [] := congrArg (List.map ToolCall.id) hCalls
      rw [hNone, List.append_nil] at hPending
      exact ⟨hPending, hLast.trans hNone⟩
  | cons call rest =>
      refine ⟨?_, ?_⟩
      · dsimp only
        rw [hLast, hPending]
      · dsimp only
        rw [hLast]
        exact hNew

/-- Where a run starts, and the tool calls that it owes: a new thread, or the
coder on a checkpoint whose only defect is the last message. -/
inductive Origin (goal : String) : Config Id → List String → Prop where
  | fresh : Origin goal (start Id goal) []
  | resumed (state : WorkflowState Id) (base : List Message) (orphan : Message)
      (hMessages : state.messages = base ++ [orphan]) (hBase : Answered base)
      (hOrphan : Orphaned base orphan) : Origin goal ⟨.coder, state⟩ orphan.calls

theorem Origin.historyRecord {goal : String} {origin : Config Id} {owed : List String}
    (hOrigin : Origin goal origin owed) : HistoryRecord (stillOwed owed []) ([] = ([] : List Input))
      origin := by
  cases hOrigin with
  | fresh => exact ⟨rfl, rfl⟩
  | resumed state base orphan hMessages hBase hOrphan =>
      refine ⟨?_, Or.inl rfl⟩
      dsimp only
      rw [hMessages, pendingCalls_snoc base (answers_of_calls hOrphan.calls),
        (answered_iff base).mp hBase]
      rfl

variable [DecidableEq Id] [Value Id]

/-- One step keeps the record of what the history owes, over every branch of the graph. -/
theorem HistoryRecord.step {settings : Settings Id} {owed : List String} {past : List Input}
    {config next : Config Id} {input : Input}
    (h : HistoryRecord (stillOwed owed past) (past = []) config)
    (hFresh : FreshIds settings config.state input)
    (hStep : Orchestrator.step settings config input = some next) :
    HistoryRecord (stillOwed owed (past ++ [input])) (past ++ [input] = []) next := by
  cases moves_of_step hStep with
  | draft state reply =>
      rw [stillOwed_snoc owed past rfl]
      exact h
  | approve state shown response reply hApproves =>
      rw [stillOwed_snoc owed past rfl, h.2]
      exact HistoryRecord.of_empty h.1
  | revise state shown response reply hRejects =>
      rw [stillOwed_snoc owed past rfl]
      rcases planEvaluator_place state with hCoder | hPlanner
      · rw [hCoder, h.2]
        exact HistoryRecord.of_empty h.1
      · rw [hPlanner]
        exact h
  | coder state seedId response route hRoute =>
      rw [stillOwed_snoc owed past rfl]
      have hNext := h.coder hFresh (past ++ [.coder seedId response] = [])
      rw [coderRouter_afterCoder hFresh.1, Option.some.injEq] at hRoute
      rw [← hRoute]
      cases hCalls : response.toolCalls with
      | nil => simpa [hCalls, Route.place] using hNext
      | cons call rest => simpa [hCalls, Route.place] using hNext
  | tools state results update hUpdate =>
      rw [stillOwed_snoc owed past rfl]
      obtain ⟨hPending, hDisjoint⟩ := h
      exact ⟨pendingCalls_afterTools hUpdate hFresh.1 hPending hDisjoint,
        Or.inr (lastCalls_afterTools hUpdate hFresh.1)⟩
  | test state outcome =>
      rw [stillOwed_snoc owed past rfl]
      rcases placeAfterTest_cases state outcome with hPasses | hFails | hRetries
      · rw [hPasses]
        trivial
      · rw [hFails]
        trivial
      · rw [hRetries]
        exact ⟨h.1, Or.inr h.2⟩
  | emptyQueue state gitStatus hTodo => trivial
  | nextTask state gitStatus task rest hTodo =>
      rw [stillOwed_gitStatus]
      cases rest with
      | nil => trivial
      | cons second others => exact HistoryRecord.of_empty (afterTask_messages state task _)
  | giveUp state => trivial

/-- In a request of the coder every tool call has its answer, exactly if the run
did not start on an unanswered call, or it is the first request of the resumed
run, or the queue manager has wiped the conversation since. -/
theorem request_answered_iff (settings : Settings Id) (goal : String) (origin : Config Id)
    (owed : List String) (hOrigin : Origin goal origin owed) (inputs : List Input)
    (config : Config Id) (hRun : replay (step settings) origin inputs = some config)
    (hFresh : Along (step settings) (fun config => FreshIds settings config.state) origin inputs)
    (hPlace : config.place = .coder) :
    Answered (coderRequest settings config.state) ↔
      owed = [] ∨ inputs = [] ∨ ∃ stdout, .gitStatus stdout ∈ inputs := by
  have hRecord := replay_along (fun config => FreshIds settings config.state)
    (fun inputs config => HistoryRecord (stillOwed owed inputs) (inputs = []) config)
    hOrigin.historyRecord (fun _ _ _ _ _ h hNew hStep => h.step hNew hStep) hRun hFresh
  rw [answered_iff, pendingCalls_coderRequest]
  by_cases hFirst : inputs = []
  · subst hFirst
    cases hRun
    refine iff_of_true ?_ (Or.inr (Or.inl rfl))
    cases hOrigin with
    | fresh => cases hPlace
    | resumed state base orphan hMessages hBase hOrphan =>
        dsimp only
        rw [hMessages, sanitizeHistory_orphan hBase hOrphan]
        exact (answered_iff base).mp hBase
  · obtain ⟨place, state⟩ := config
    cases hPlace
    obtain ⟨hPending, hLast⟩ := hRecord
    rw [sanitizeHistory_eq (hLast.resolve_left hFirst), hPending]
    rw [stillOwed]
    split
    · rename_i hWiped
      obtain ⟨input, hIn, hGit⟩ := List.any_eq_true.mp hWiped
      cases input with
      | gitStatus stdout => exact iff_of_true rfl (Or.inr (Or.inr ⟨stdout, hIn⟩))
      | _ => cases hGit
    · rename_i hKept
      refine ⟨Or.inl, ?_⟩
      rintro (hNone | hEmpty | ⟨stdout, hIn⟩)
      · exact hNone
      · exact (hFirst hEmpty).elim
      · exact (hKept (List.any_eq_true.mpr ⟨_, hIn, rfl⟩)).elim

/-- The coder asked for a tool, and the checkpoint was taken before the tool ran. -/
def danglingCall : Message := ⟨some "m1", .ai "" [⟨"c1"⟩]⟩

def danglingState : WorkflowState String :=
  { (approvedConfig "id: a").state with
    messages := [{ beginMessage with id := some "m0" }, danglingCall], toolCallCount := 1 }

theorem danglingState_origin : Origin "goal" ⟨.coder, danglingState⟩ danglingCall.calls := by
  refine Origin.resumed danglingState [{ beginMessage with id := some "m0" }] danglingCall rfl ?_
    ⟨by decide, by decide⟩
  rw [answered_iff]
  rfl

/-- The resumed coder makes a turn, and its tests fail. -/
def oneFailedTurn : List Input :=
  [.coder "m2" ⟨"m3", "Done.", []⟩, .cargo (.exited 101 "" "error")]

def afterFailedTurn : WorkflowState String :=
  afterTest (afterCoder danglingState idLineSettings "m2" ⟨"m3", "Done.", []⟩)
    (.exited 101 "" "error")

theorem oneFailedTurn_run : replay (step idLineSettings) ⟨.coder, danglingState⟩ oneFailedTurn =
    some ⟨.coder, afterFailedTurn⟩ := by
  decide +kernel

theorem oneFailedTurn_fresh :
    Along (step idLineSettings) (fun config => FreshIds idLineSettings config.state)
      ⟨.coder, danglingState⟩ oneFailedTurn := by
  decide +kernel

theorem request_answered_iff_oneFailedTurn :
    Answered (coderRequest idLineSettings afterFailedTurn) ↔
      danglingCall.calls = [] ∨ oneFailedTurn = [] ∨ ∃ stdout, .gitStatus stdout ∈ oneFailedTurn :=
  request_answered_iff idLineSettings "goal" ⟨.coder, danglingState⟩ danglingCall.calls
    danglingState_origin oneFailedTurn ⟨.coder, afterFailedTurn⟩ oneFailedTurn_run
    oneFailedTurn_fresh rfl

/-- The first request after the resumption leaves the call out, and the second one
has it again, with no answer. -/
theorem dangling_call_returns :
    Origin "goal" ⟨.coder, danglingState⟩ danglingCall.calls ∧
    replay (step idLineSettings) ⟨.coder, danglingState⟩ oneFailedTurn =
      some ⟨.coder, afterFailedTurn⟩ ∧
    Along (step idLineSettings) (fun config => FreshIds idLineSettings config.state)
      ⟨.coder, danglingState⟩ oneFailedTurn ∧
    pendingCalls (coderRequest idLineSettings danglingState) = [] ∧
    danglingCall ∈ coderRequest idLineSettings afterFailedTurn ∧
    ¬Answered (coderRequest idLineSettings afterFailedTurn) := by
  refine ⟨danglingState_origin, oneFailedTurn_run, oneFailedTurn_fresh, by decide +kernel,
    by decide +kernel, ?_⟩
  rw [answered_iff]
  decide +kernel

end Orchestrator
