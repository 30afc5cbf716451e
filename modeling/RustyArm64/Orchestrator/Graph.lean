import RustyArm64.Base.Replay
import RustyArm64.Orchestrator.Nodes

/-! The workflow graph as a machine. An input is what one node execution gets
from outside, so a list of inputs fixes a run: the replies of the model, the
responses of the user and the outcomes of the tests in their order. -/
namespace Orchestrator

open Suspension (Program Status execute)

/-- Where the run stands. A suspended planner shows the draft of its interrupt. -/
inductive Place where
  | planner
  | suspended (draft : String)
  | coder
  | coderTools
  | tester
  | queueManager
  | giveUp
  | finished
  deriving DecidableEq, Repr

structure Config (Id : Type) where
  place : Place
  state : WorkflowState Id
  deriving DecidableEq

inductive Input where
  /-- The planner's first execution: the reply of the model. -/
  | draft (reply : String)
  /-- `Command(resume=...)`, and the reply of the model to the execution it starts. -/
  | resume (userResponse reply : String)
  | coder (seedId : String) (response : AiMessage)
  | tools (results : List (String × String))
  | cargo (outcome : CargoOutcome)
  | gitStatus (stdout : String)
  | gitDiff
  deriving DecidableEq, Repr

def Route.place : Route → Place
  | .planner => .planner
  | .coder => .coder
  | .coderTools => .coderTools
  | .tester => .tester
  | .queueManager => .queueManager
  | .giveUp => .giveUp
  | .finish => .finished

variable {Id : Type} [DecidableEq Id] [Value Id]

/-- One execution of a node that returns, its update merged and the next node chosen. A
node in which a tool or a git call raises makes no step. It ends the process, and the thread
stays at the checkpoint before it. -/
def step (settings : Settings Id) (config : Config Id) (input : Input) : Option (Config Id) :=
  let state := config.state
  match config.place, input with
  | .planner, .draft reply =>
    match execute (plannerNode settings state) [reply] [] with
    | some (.paused draft) => some { config with place := .suspended draft }
    | _ => none
  | .suspended _, .resume userResponse reply =>
    match execute (plannerNode settings state) [reply] [userResponse] with
    | some (.finished update) =>
      let state := state.merge update
      some ⟨(planEvaluator state).place, state⟩
    | _ => none
  | .coder, .coder seedId response =>
    let state := state.merge (coderNode settings state seedId response)
    (coderRouter state).map fun route => ⟨route.place, state⟩
  | .coderTools, .tools results =>
    (toolNode state results).map fun update => ⟨.coder, state.merge update⟩
  | .tester, .cargo outcome =>
    let state := state.merge (testerNode state outcome)
    some ⟨(testEvaluator state).place, state⟩
  | .queueManager, .gitStatus stdout =>
    let state := state.merge (queueManagerNode settings state stdout).1
    some ⟨(queueEvaluator state).place, state⟩
  | .giveUp, .gitDiff => some ⟨.finished, state.merge giveUpNode⟩
  | _, _ => none

/-- The entry point of a new thread. -/
def start (Id : Type) (goal : String) : Config Id := ⟨.planner, initialState Id goal⟩

/-- The configuration after the inputs of a run. -/
def runOf (settings : Settings Id) (goal : String) (inputs : List Input) : Option (Config Id) :=
  Replay.replay (step settings) (start Id goal) inputs

end Orchestrator
