import RustyArm64.Base.CountedLoop
import RustyArm64.Base.Overwrite
import RustyArm64.Base.LittleEndian
import RustyArm64.Base.BitFields
import RustyArm64.Base.AddWithCarry
import RustyArm64.Base.Lanes
import RustyArm64.Base.LastWriter
import RustyArm64.Base.Replay
import RustyArm64.Base.Outstanding
import RustyArm64.Base.Suspension
import RustyArm64.Base.AtLeastOnce
import RustyArm64.Base.Restart
import RustyArm64.Base.FixedFormat
import RustyArm64.Base.A64
import RustyArm64.Base.FileTree
import RustyArm64.Base.FirstRefusal
import RustyArm64.Simulator.Rust
import RustyArm64.Simulator.Memory
import RustyArm64.Simulator.ByteMap
import RustyArm64.Simulator.Registers
import RustyArm64.Simulator.Decode
import RustyArm64.Simulator.Layout
import RustyArm64.Simulator.Executor
import RustyArm64.Simulator.OperandSize
import RustyArm64.Simulator.Cpu
import RustyArm64.Simulator.Safety
import RustyArm64.Simulator.Run
import RustyArm64.Simulator.Halting
import RustyArm64.Simulator.NarrowForms
import RustyArm64.Simulator.WideArithmetic
import RustyArm64.Simulator.WideMoves
import RustyArm64.Simulator.RegisterThirtyOne
import RustyArm64.Simulator.DataFlow
import RustyArm64.Simulator.Loader
import RustyArm64.Simulator.PartialLoad
import RustyArm64.Simulator.SegmentOrder
import RustyArm64.Simulator.FileType
import RustyArm64.Simulator.EndToEnd
import RustyArm64.Simulator.ExceptionEncoding
import RustyArm64.Simulator.UnallocatedEncoding
import RustyArm64.Simulator.Dump
import RustyArm64.Simulator.Main
import RustyArm64.Simulator.Assembly
import RustyArm64.Simulator.Reload
import RustyArm64.Simulator.Relocation
import RustyArm64.Simulator.Architecture
import RustyArm64.Simulator.Conformance
import RustyArm64.Simulator.Accessors
import RustyArm64.Orchestrator.Text
import RustyArm64.Orchestrator.State
import RustyArm64.Orchestrator.Nodes
import RustyArm64.Orchestrator.Graph
import RustyArm64.Orchestrator.Moves
import RustyArm64.Orchestrator.PlanApproval
import RustyArm64.Orchestrator.ApprovalKeywords
import RustyArm64.Orchestrator.PlanParsing
import RustyArm64.Orchestrator.FailurePrompt
import RustyArm64.Orchestrator.TaskConservation
import RustyArm64.Orchestrator.HeadTask
import RustyArm64.Orchestrator.RetryBudget
import RustyArm64.Orchestrator.Messages
import RustyArm64.Orchestrator.ToolHistory
import RustyArm64.Orchestrator.ToolBudget
import RustyArm64.Orchestrator.QueueReplay
import RustyArm64.Orchestrator.Progress
import RustyArm64.Orchestrator.Driver
import RustyArm64.Orchestrator.Threads
import RustyArm64.Orchestrator.Reports
import RustyArm64.Orchestrator.FreshStart
import RustyArm64.Orchestrator.TestedCommits
import RustyArm64.Orchestrator.Tools
import RustyArm64.Orchestrator.Startup
