import Mathlib.Data.List.Nodup
import RustyArm64.Orchestrator.Moves

/-! The message list of the state. New messages are appended and cleared ones go
away, as long as their ids are fresh. -/
namespace Orchestrator

/-- No old message has one of the new ids, and the new ids are different. -/
def FreshMessages (messages new : List Message) : Prop :=
  (∀ m ∈ new, ∀ old ∈ messages, old.id ≠ m.id) ∧ (new.map Message.id).Nodup

instance (messages new : List Message) : Decidable (FreshMessages messages new) :=
  inferInstanceAs (Decidable (_ ∧ _))

/-- A message with an id of its own is put at the end. -/
theorem addMessage_fresh {messages : List Message} {message : Message}
    (hFresh : ∀ old ∈ messages, old.id ≠ message.id) :
    addMessage messages (.put message) = messages ++ [message] := by
  have hNone : messages.any (fun old => old.id == message.id) = false := by
    rw [List.any_eq_false]
    intro old hOld
    simpa using hFresh old hOld
  simp [addMessage, hNone]

/-- So are several, in their order. Without the condition an old message would be replaced
where it stands. -/
theorem addMessages_fresh {messages new : List Message} (hFresh : FreshMessages messages new) :
    addMessages messages (new.map .put) = messages ++ new := by
  induction new generalizing messages with
  | nil => simp [addMessages]
  | cons message rest ih =>
      obtain ⟨hOld, hNodup⟩ := hFresh
      rw [List.map_cons, List.nodup_cons] at hNodup
      have hRest : FreshMessages (messages ++ [message]) rest := by
        refine ⟨fun m hM old hIn => ?_, hNodup.2⟩
        rcases List.mem_append.mp hIn with hPast | hLast
        · exact hOld m (List.mem_cons_of_mem message hM) old hPast
        · rw [List.mem_singleton.mp hLast]
          exact fun hEq => hNodup.1 (hEq ▸ List.mem_map_of_mem hM)
      have hFirst := addMessage_fresh (hOld message List.mem_cons_self)
      rw [List.map_cons, addMessages, List.foldl_cons, hFirst, ← addMessages, ih hRest,
        List.append_assoc, List.singleton_append]

/-- What is left after some messages were removed. -/
theorem mem_addMessages_remove {messages removed : List Message} {m : Message}
    (h : m ∈ addMessages messages (removed.map fun old => .remove old.id)) :
    m ∈ messages ∧ ∀ old ∈ removed, m.id ≠ old.id := by
  induction removed generalizing messages with
  | nil => exact ⟨h, fun _ hOld => by cases hOld⟩
  | cons first rest ih =>
      obtain ⟨hIn, hRest⟩ := ih h
      rw [addMessage, List.mem_filter, bne_iff_ne] at hIn
      refine ⟨hIn.1, fun old hOld => ?_⟩
      rcases List.mem_cons.mp hOld with rfl | hLater
      · exact hIn.2
      · exact hRest old hLater

/-- The ids of the tool calls that a message makes. -/
def Message.calls (m : Message) : List String :=
  match m.body with
  | .ai _ toolCalls => toolCalls.map ToolCall.id
  | _ => []

/-- The id of the tool call that a message answers. -/
def Message.answers (m : Message) : List String :=
  match m.body with
  | .tool callId _ => [callId]
  | _ => []

/-- The answers of the tool node. -/
def toolMessages (toolCalls : List ToolCall) (results : List (String × String)) : List Message :=
  (toolCalls.zip results).map fun (call, id, content) => ⟨some id, .tool call.id content⟩

theorem calls_of_mem_toolMessages {toolCalls : List ToolCall} {results : List (String × String)}
    {m : Message} (h : m ∈ toolMessages toolCalls results) : m.calls = [] := by
  obtain ⟨_, -, rfl⟩ := List.mem_map.mp h
  rfl

/-- Every tool call is answered. -/
theorem answers_toolMessages {toolCalls : List ToolCall} {results : List (String × String)}
    (hLength : results.length = toolCalls.length) :
    (toolMessages toolCalls results).flatMap Message.answers = toolCalls.map ToolCall.id := by
  induction toolCalls generalizing results with
  | nil => rfl
  | cons call rest ih =>
      cases results with
      | nil => cases hLength
      | cons result others => exact congrArg (call.id :: ·) (ih (Nat.succ.inj hLength))

/-- Results with ids of their own make tool messages with ids of their own. -/
theorem freshMessages_toolMessages {messages : List Message} {toolCalls : List ToolCall}
    {results : List (String × String)} (hLength : results.length = toolCalls.length)
    (hOld : ∀ result ∈ results, ∀ old ∈ messages, old.id ≠ some result.1)
    (hNodup : (results.map Prod.fst).Nodup) :
    FreshMessages messages (toolMessages toolCalls results) := by
  have hSecond : (toolCalls.zip results).map Prod.snd = results :=
    List.map_snd_zip (Nat.le_of_eq hLength)
  constructor
  · intro m hM old hIn
    obtain ⟨⟨call, id, content⟩, hPair, rfl⟩ := List.mem_map.mp hM
    exact hOld (id, content) (List.of_mem_zip hPair).2 old hIn
  · have hIds : (toolMessages toolCalls results).map Message.id =
        (results.map Prod.fst).map some := by
      rw [← hSecond, toolMessages, List.map_map, List.map_map, List.map_map, hSecond]
      rfl
    rw [hIds]
    exact hNodup.map fun _ _ => Option.some.inj

variable {Id : Type}

/-- The queue manager wipes the conversation. -/
theorem afterTask_messages (state : WorkflowState Id) (task : Id) (rest : List Id) :
    (afterTask state task rest).messages = [] := by
  rw [List.eq_nil_iff_forall_not_mem]
  intro m hM
  obtain ⟨hIn, hRemoved⟩ := mem_addMessages_remove hM
  exact hRemoved m hIn rfl

/-- The messages of a coder turn: the seed on an empty history, and the reply. -/
def coderMessages (settings : Settings Id) (state : WorkflowState Id) (seedId : String)
    (response : AiMessage) : List Message :=
  (if coderHistory settings state = [] then [{ beginMessage with id := some seedId }] else []) ++
    [response.toMessage]

/-- The ids of the new messages that an input brings are not in use. -/
def FreshMessageIds (settings : Settings Id) (state : WorkflowState Id) : Input → Prop
  | .coder seedId response =>
    FreshMessages state.messages (coderMessages settings state seedId response)
  | .tools results =>
    (∀ result ∈ results, ∀ old ∈ state.messages, old.id ≠ some result.1) ∧
    (results.map Prod.fst).Nodup
  | _ => True

/-- The ids of its tool calls are not in use either. -/
def FreshCalls (state : WorkflowState Id) : Input → Prop
  | .coder _ response => ∀ m ∈ state.messages, ∀ key ∈ response.toMessage.calls, key ∉ m.calls
  | _ => True

def FreshIds (settings : Settings Id) (state : WorkflowState Id) (input : Input) : Prop :=
  FreshMessageIds settings state input ∧ FreshCalls state input

instance (settings : Settings Id) (state : WorkflowState Id) :
    (input : Input) → Decidable (FreshMessageIds settings state input)
  | .coder _ _ => inferInstanceAs (Decidable (FreshMessages _ _))
  | .tools _ => inferInstanceAs (Decidable (_ ∧ _))
  | .draft _ => .isTrue trivial
  | .resume _ _ => .isTrue trivial
  | .cargo _ => .isTrue trivial
  | .gitStatus _ => .isTrue trivial
  | .gitDiff => .isTrue trivial

instance (state : WorkflowState Id) : (input : Input) → Decidable (FreshCalls state input)
  | .coder _ _ => inferInstanceAs (Decidable (∀ m ∈ state.messages, _))
  | .tools _ => .isTrue trivial
  | .draft _ => .isTrue trivial
  | .resume _ _ => .isTrue trivial
  | .cargo _ => .isTrue trivial
  | .gitStatus _ => .isTrue trivial
  | .gitDiff => .isTrue trivial

instance (settings : Settings Id) (state : WorkflowState Id) (input : Input) :
    Decidable (FreshIds settings state input) :=
  inferInstanceAs (Decidable (_ ∧ _))

/-- What the coder adds to the history: the seed of the task if there was none, then its
reply. Nothing is removed. -/
theorem afterCoder_messages {settings : Settings Id} {state : WorkflowState Id} {seedId : String}
    {response : AiMessage} (hFresh : FreshMessageIds settings state (.coder seedId response)) :
    (afterCoder state settings seedId response).messages =
      state.messages ++ coderMessages settings state seedId response := by
  have hUpdate : (coderNode settings state seedId response).messages =
      some ((coderMessages settings state seedId response).map .put) := by
    unfold coderNode coderMessages
    dsimp only
    split <;> rfl
  rw [← addMessages_fresh hFresh]
  simp only [afterCoder, hUpdate, Option.getD_some]

/-- The tool node answers the tool calls of the last message. -/
theorem toolNode_messages {settings : Settings Id} {state : WorkflowState Id}
    {results : List (String × String)} {update : Update Id}
    (hUpdate : toolNode state results = some update)
    (hFresh : FreshMessageIds settings state (.tools results)) :
    ∃ id content toolCalls, state.messages.getLast? = some ⟨id, .ai content toolCalls⟩ ∧
      results.length = toolCalls.length ∧
      addMessages state.messages (update.messages.getD []) =
        state.messages ++ toolMessages toolCalls results := by
  unfold toolNode at hUpdate
  split at hUpdate
  · rename_i id content toolCalls hLast
    split at hUpdate
    · rename_i hLength
      cases hUpdate
      refine ⟨id, content, toolCalls, hLast, hLength, ?_⟩
      rw [← addMessages_fresh (freshMessages_toolMessages hLength hFresh.1 hFresh.2), toolMessages,
        List.map_map]
      rfl
    · cases hUpdate
  · cases hUpdate

end Orchestrator
