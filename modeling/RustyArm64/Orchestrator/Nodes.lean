import RustyArm64.Base.Suspension
import RustyArm64.Orchestrator.State
import RustyArm64.Orchestrator.Text

/-! The nodes and routers of the workflow graph. What a node gets from outside
(the reply of the model, the outcome of a subprocess, the ids of new messages)
is an argument. -/
namespace Orchestrator

open Suspension (Program)

def maxTestRetries : Nat := 5

/-- What `yaml.safe_load` returned, as far as the orchestrator looks at it. -/
inductive Yaml (Id : Type) where
  /-- A dictionary with its entries for `id` and `title`. -/
  | mapping (id? title? : Option Id)
  | other
  deriving DecidableEq, Repr

/-- The configuration of the nodes, and the YAML parser. -/
structure Settings (Id : Type) where
  plannerPrompt : String
  baseSystemPrompt : String
  maxToolCalls : Nat
  /-- `yaml.safe_load`, with `none` when it raises. -/
  safeLoad : String → Option (Yaml Id)

inductive CargoOutcome where
  | exited (returncode : Int) (stdout stderr : String)
  | raised (message : String)
  deriving DecidableEq, Repr

section Prompt

variable {Id : Type} [DecidableEq Id] [Value Id]

def currentStepPlan (state : WorkflowState Id) : String :=
  match state.todoTasks with
  | [] => "No tasks left."
  | task :: _ =>
    if Value.truthy task then state.stepPlans.get task "No step plan found." else "No tasks left."

/-- The system prompt without the part on failed tests. -/
def promptHead (state : WorkflowState Id) (basePrompt : String) : String :=
  basePrompt ++ "\n\n" ++ "Architecture Spec:\n" ++ state.architectureSpec ++ "\n\n" ++
    "Current Step Plan:\n" ++ currentStepPlan state

/-- The part of the prompt that quotes a failed test run. -/
def failureBlock (testResults : String) : String :=
  "\n\nPrevious test run FAILED — you must fix these errors:\n" ++ testResults

def buildSystemPrompt (state : WorkflowState Id) (basePrompt : String) : String :=
  let prompt := promptHead state basePrompt
  if state.testResults ≠ "" ∧ state.testsPassed = false then
    prompt ++ failureBlock state.testResults
  else prompt

end Prompt

section Routers

variable {Id : Type}

inductive Route where
  | planner | coder | coderTools | tester | queueManager | giveUp | finish
  deriving DecidableEq, Repr

def planEvaluator (state : WorkflowState Id) : Route :=
  if state.planApproved then .coder else .planner

def testEvaluator (state : WorkflowState Id) : Route :=
  if state.testsPassed then .queueManager
  else if state.retryCount ≥ maxTestRetries then .giveUp
  else .coder

def queueEvaluator (state : WorkflowState Id) : Route :=
  if state.todoTasks.isEmpty then .finish else .coder

/-- Raises when the last message cannot have tool calls or there is none. -/
def coderRouter (state : WorkflowState Id) : Option Route :=
  match state.messages.getLast? with
  | some ⟨_, .ai _ toolCalls⟩ => some (if toolCalls.isEmpty then .tester else .coderTools)
  | _ => none

end Routers

section Planner

variable {Id : Type} [DecidableEq Id] [Value Id]

def approvalKeywords : List String :=
  ["approved", "approve", "yes", "y", "lgtm", "looks good", "go ahead", "ship it", "ok", "okay"]

def approves (userResponse : String) : Bool :=
  approvalKeywords.any fun keyword => contains (lower (strip userResponse)) keyword

/-- One piece of the draft: a mapping with an id becomes a step, all else is
passed over. -/
def addStep (safeLoad : String → Option (Yaml Id)) (steps : List Id × StepPlans Id) (doc : String) :
    List Id × StepPlans Id :=
  let doc := strip doc
  if doc = "" then steps
  else
    match safeLoad doc with
    | some (.mapping (some stepId) _) =>
      -- An id that cannot be a key raises before the task is appended.
      if Value.hashable stepId then (steps.1 ++ [stepId], steps.2.set stepId doc) else steps
    | _ => steps

/-- The tasks and step plans of a draft. -/
def parsePlan (safeLoad : String → Option (Yaml Id)) (draft : String) : List Id × StepPlans Id :=
  (splitDashes draft).foldl (addStep safeLoad) ([], [])

def plannerRequest (settings : Settings Id) (state : WorkflowState Id) : List Message :=
  let previous := match state.planDraft with
    | some draft => if draft ≠ "" then "Previous plan draft:\n" ++ draft ++ "\n\n" else ""
    | none => ""
  let ask := match state.planFeedback with
    | some feedback =>
      if feedback ≠ "" then "Human feedback:\n" ++ feedback ++ "\n\nRevise the plan accordingly."
      else "Produce the initial plan draft."
    | none => "Produce the initial plan draft."
  [⟨none, .system settings.plannerPrompt⟩,
    ⟨none, .human ("Goal: " ++ state.goal ++ "\n\n" ++ "Architecture Spec:\n" ++
      state.architectureSpec ++ "\n\n" ++ previous ++ ask)⟩]

/-- What the planner returns for the draft of this execution and the response. -/
def plannerUpdate (settings : Settings Id) (revisedDraft userResponse : String) : Update Id :=
  if approves userResponse then
    let steps := parsePlan settings.safeLoad revisedDraft
    { planDraft := some none
      planApproved := some true
      planFeedback := some none
      todoTasks := some steps.1
      stepPlans := some steps.2
      retryCount := some 0
      toolCallCount := some 0 }
  else { planDraft := some (some revisedDraft), planFeedback := some (some userResponse) }

def plannerNode (settings : Settings Id) (state : WorkflowState Id) :
    Program (List Message) String String String (Update Id) :=
  .ask (plannerRequest settings state) fun revisedDraft =>
    .pause revisedDraft fun userResponse => .done (plannerUpdate settings revisedDraft userResponse)

end Planner

section Coder

variable {Id : Type} [DecidableEq Id] [Value Id]

/-- The tool calls that a tool message answers. -/
def resolvedCalls (messages : List Message) : List String :=
  messages.filterMap fun m =>
    match m.body with
    | .tool callId _ => if callId ≠ "" then some callId else none
    | _ => none

/-- An AI message with a tool call that no tool message answers. -/
def isOrphan (resolved : List String) (m : Message) : Bool :=
  match m.body with
  | .ai _ toolCalls => toolCalls.any fun call => !resolved.contains call.id
  | _ => false

/-- Drop the trailing AI messages whose tool calls were never executed. -/
def sanitizeHistory (messages : List Message) : List Message :=
  (messages.reverse.dropWhile (isOrphan (resolvedCalls messages))).reverse

def limitMessage : Message :=
  ⟨none, .human ("You have reached the tool-call limit for this turn. " ++
    "Do NOT call any more tools. Finalise your implementation " ++
    "using only what you have already written and read.")⟩

def beginMessage : Message := ⟨none, .human "Begin the current task."⟩

/-- The history that the coder works on, with the request to wrap up when the
tool budget is used up. -/
def coderHistory (settings : Settings Id) (state : WorkflowState Id) : List Message :=
  let history := sanitizeHistory state.messages
  if state.toolCallCount ≥ settings.maxToolCalls ∧ history ≠ [] then history ++ [limitMessage]
  else history

/-- The messages that the coder passes to the model. -/
def coderRequest (settings : Settings Id) (state : WorkflowState Id) : List Message :=
  let system : Message := ⟨none, .system (buildSystemPrompt state settings.baseSystemPrompt)⟩
  let history := coderHistory settings state
  if history = [] then [system, beginMessage] else system :: history

/-- The reply of the model, with the id it has in the state. -/
structure AiMessage where
  id : String
  content : String
  toolCalls : List ToolCall
  deriving DecidableEq, Repr

def AiMessage.toMessage (response : AiMessage) : Message :=
  ⟨some response.id, .ai response.content response.toolCalls⟩

/-- What the coder returns for a reply. The id is for the seed message. -/
def coderNode (settings : Settings Id) (state : WorkflowState Id) (seedId : String)
    (response : AiMessage) : Update Id :=
  let seed : List MessageUpdate :=
    if coderHistory settings state = [] then [.put { beginMessage with id := some seedId }] else []
  { messages := some (seed ++ [.put response.toMessage])
    toolCallCount :=
      if response.toolCalls.isEmpty then none else some (state.toolCallCount + 1) }

/-- The tool node answers every tool call of the last message. The results come
with the ids of the new messages. -/
def toolNode (state : WorkflowState Id) (results : List (String × String)) : Option (Update Id) :=
  match state.messages.getLast? with
  | some ⟨_, .ai _ toolCalls⟩ =>
    if results.length = toolCalls.length then
      some { messages := some ((toolCalls.zip results).map fun (call, id, content) =>
        .put ⟨some id, .tool call.id content⟩) }
    else none
  | _ => none

end Coder

section Tests

variable {Id : Type}

def CargoOutcome.passed : CargoOutcome → Bool
  | .exited returncode _ _ => returncode == 0
  | .raised _ => false

/-- The text kept of a test run. -/
def CargoOutcome.report : CargoOutcome → String
  | .exited returncode stdout stderr =>
    if returncode = 0 then "Tests passed successfully.\n" ++ stdout
    else "Tests failed.\nSTDOUT:\n" ++ stdout ++ "\nSTDERR:\n" ++ stderr
  | .raised message => "System Error running tests: " ++ message

def testerNode (state : WorkflowState Id) (outcome : CargoOutcome) : Update Id :=
  if outcome.passed then
    { testResults := some outcome.report, testsPassed := some true, retryCount := some 0 }
  else
    { testResults := some outcome.report
      testsPassed := some false
      retryCount := some (state.retryCount + 1) }

end Tests

section Queue

variable {Id : Type} [DecidableEq Id] [Value Id]

inductive GitCommand where
  | addAll
  | commit (message : String)
  deriving DecidableEq, Repr

/-- The title of a finished task, from its step plan. -/
def taskTitle (settings : Settings Id) (state : WorkflowState Id) (task : Id) : Id :=
  match settings.safeLoad (state.stepPlans.get task "") with
  | some (.mapping _ (some title)) => title
  | _ => task

/-- The commands run when the working tree has changes. -/
def commitCommands (settings : Settings Id) (state : WorkflowState Id) (task : Id)
    (gitStatus : String) : List GitCommand :=
  if strip gitStatus = "" then []
  else
    [.addAll, .commit ("complete " ++ Value.str task ++ ": " ++
      Value.str (taskTitle settings state task))]

/-- The update and the git commands, given the output of `git status`. -/
def queueManagerNode (settings : Settings Id) (state : WorkflowState Id) (gitStatus : String) :
    Update Id × List GitCommand :=
  match state.todoTasks with
  | [] => ({}, [])
  | completedTask :: remainingTasks =>
    ({ todoTasks := some remainingTasks
       completedTasks := some [completedTask]
       testsPassed := some false
       retryCount := some 0
       toolCallCount := some 0
       messages := some (state.messages.map fun m => .remove m.id) },
     commitCommands settings state completedTask gitStatus)

/-- `give_up_node` prints and changes nothing. -/
def giveUpNode : Update Id := {}

end Queue

end Orchestrator
