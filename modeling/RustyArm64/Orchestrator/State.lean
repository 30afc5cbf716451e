import Mathlib.Data.Nat.Notation

/-! The shared state of the workflow and how the updates of its nodes are merged
into it. -/
namespace Orchestrator

/-- What the orchestrator asks of a YAML value that stands for a step id or a
title. The keys of dictionaries are compared by the equality of `Id`. So an instance
does not hold both `1` and `true`, which are one key in Python and have two texts. -/
class Value (Id : Type) where
  truthy : Id → Bool
  hashable : Id → Bool
  str : Id → String

structure ToolCall where
  id : String
  deriving DecidableEq, Repr

inductive Body where
  | system (content : String)
  | human (content : String)
  | ai (content : String) (toolCalls : List ToolCall)
  | tool (toolCallId content : String)
  deriving DecidableEq, Repr

/-- A chat message. It has no id before it is merged into the state. -/
structure Message where
  id : Option String
  body : Body
  deriving DecidableEq, Repr

inductive MessageUpdate where
  | put (message : Message)
  /-- `RemoveMessage`. -/
  | remove (id : Option String)
  deriving DecidableEq, Repr

/-- One update of the `add_messages` reducer: a message with a known id takes
the old one's place, any other is appended. -/
def addMessage (messages : List Message) : MessageUpdate → List Message
  | .put message =>
    if messages.any (fun old => old.id == message.id) then
      messages.map fun old => if old.id == message.id then message else old
    else messages ++ [message]
  | .remove id => messages.filter fun old => old.id != id

/-- The `add_messages` reducer. -/
def addMessages (messages : List Message) (updates : List MessageUpdate) : List Message :=
  updates.foldl addMessage messages

/-- A dictionary of step plans, in insertion order. -/
abbrev StepPlans (Id : Type) := List (Id × String)

namespace StepPlans

variable {Id : Type} [DecidableEq Id]

/-- `plans[id] = plan`: an existing key keeps its place. -/
def set : StepPlans Id → Id → String → StepPlans Id
  | [], id, plan => [(id, plan)]
  | (key, old) :: rest, id, plan =>
    if key = id then (key, plan) :: rest else (key, old) :: set rest id plan

/-- `plans.get(id, default)`. -/
def get (plans : StepPlans Id) (id : Id) (default : String) : String :=
  ((plans.find? fun entry => entry.1 = id).map Prod.snd).getD default

theorem get_cons (key : Id) (plan : String) (rest : StepPlans Id) (id : Id) (default : String) :
    get ((key, plan) :: rest) id default = if key = id then plan else get rest id default := by
  unfold get
  rw [List.find?_cons]
  by_cases hKey : key = id
  · simp [hKey]
  · simp [hKey]

/-- The plan stored under an id is the one read back. -/
theorem get_set_self (plans : StepPlans Id) (id : Id) (plan default : String) :
    (plans.set id plan).get id default = plan := by
  induction plans with
  | nil => rw [set, get_cons, if_pos rfl]
  | cons entry rest ih =>
      obtain ⟨key, old⟩ := entry
      rw [set]
      split
      · rename_i hKey
        rw [get_cons, if_pos hKey]
      · rename_i hKey
        rw [get_cons, if_neg hKey, ih]

/-- Storing leaves the plans of other ids. -/
theorem get_set_of_ne (plans : StepPlans Id) {id other : Id} (h : id ≠ other)
    (plan default : String) : (plans.set id plan).get other default = plans.get other default := by
  induction plans with
  | nil => rw [set, get_cons, if_neg h]
  | cons entry rest ih =>
      obtain ⟨key, old⟩ := entry
      rw [set, get_cons]
      split
      · rename_i hKey
        rw [get_cons, hKey, if_neg h, if_neg h]
      · rw [get_cons, ih]

end StepPlans

structure WorkflowState (Id : Type) where
  goal : String
  planDraft : Option String
  planApproved : Bool
  planFeedback : Option String
  todoTasks : List Id
  completedTasks : List Id
  stepPlans : StepPlans Id
  architectureSpec : String
  testResults : String
  messages : List Message
  testsPassed : Bool
  retryCount : Nat
  toolCallCount : Nat
  deriving DecidableEq

/-- What a node returns: the fields it writes. -/
structure Update (Id : Type) where
  planDraft : Option (Option String) := none
  planApproved : Option Bool := none
  planFeedback : Option (Option String) := none
  todoTasks : Option (List Id) := none
  completedTasks : Option (List Id) := none
  stepPlans : Option (StepPlans Id) := none
  testResults : Option String := none
  messages : Option (List MessageUpdate) := none
  testsPassed : Option Bool := none
  retryCount : Option Nat := none
  toolCallCount : Option Nat := none
  deriving DecidableEq

/-- Merge an update: the completed tasks are appended, the messages go through
their reducer, and in every other field the last write wins. -/
def WorkflowState.merge {Id : Type} (state : WorkflowState Id) (update : Update Id) :
    WorkflowState Id where
  goal := state.goal
  planDraft := update.planDraft.getD state.planDraft
  planApproved := update.planApproved.getD state.planApproved
  planFeedback := update.planFeedback.getD state.planFeedback
  todoTasks := update.todoTasks.getD state.todoTasks
  completedTasks := state.completedTasks ++ update.completedTasks.getD []
  stepPlans := update.stepPlans.getD state.stepPlans
  architectureSpec := state.architectureSpec
  testResults := update.testResults.getD state.testResults
  messages := addMessages state.messages (update.messages.getD [])
  testsPassed := update.testsPassed.getD state.testsPassed
  retryCount := update.retryCount.getD state.retryCount
  toolCallCount := update.toolCallCount.getD state.toolCallCount

/-- The state in which the driver starts a new thread. -/
def initialState (Id : Type) (goal : String) : WorkflowState Id where
  goal := goal
  planDraft := none
  planApproved := false
  planFeedback := none
  todoTasks := []
  completedTasks := []
  stepPlans := []
  architectureSpec :=
    "Target: ARMv8-A AArch64 (64-bit execution state). " ++
    "Registers: 31 general-purpose 64-bit registers (X0–X30), SP, PC, PSTATE. " ++
    "Memory model: flat, byte-addressable. " ++
    "Instruction encoding: fixed 32-bit little-endian words. " ++
    "Relevant instructions for MVP: ADD, SUB, MOV (wide immediate), LDR, STR, B, BL, RET, HLT."
  testResults := ""
  messages := []
  testsPassed := false
  retryCount := 0
  toolCallCount := 0

end Orchestrator
