import RustyArm64.Base.Replay
import RustyArm64.Simulator.Run

/-! The halt flag over arbitrary uses of a CPU: `step` looks at it only after an
instruction has taken its effect. -/
namespace Simulator

/-- The public operations that change a CPU. Its memory is a public field. -/
inductive PublicOp where
  | writeReg (index value : UInt64)
  | writeSp (value : UInt64)
  | writePc (value : UInt64)
  | writePstate (value : UInt64)
  | setFlags (n z c v : Bool)
  | memWriteU32 (addr : UInt64) (val : UInt32)
  | memWriteBytes (addr : UInt64) (data : Bytes)
  | memFillZeros (addr size : UInt64)
  /-- `execute` of the instruction that a word decodes to, if it does. -/
  | execute (word : UInt32)
  | step
  | run
  deriving DecidableEq

namespace Cpu

open Replay

/-- The CPU after one operation, whatever the operation returns, or `none` if
it panics. -/
def applyOp (cpu : Cpu) : PublicOp → Option Cpu
  | .writeReg index value => (cpu.writeReg index value).toOption
  | .writeSp value => some (cpu.writeSp value)
  | .writePc value => some (cpu.writePc value)
  | .writePstate value => some (cpu.writePstate value)
  | .setFlags n z c v => some (cpu.setFlags n z c v)
  | .memWriteU32 addr val =>
      (cpu.mem.writeU32 addr val).toOption.map fun out => { cpu with mem := out.2 }
  | .memWriteBytes addr data =>
      (cpu.mem.writeBytes addr data).toOption.map fun out => { cpu with mem := out.2 }
  | .memFillZeros addr size =>
      (cpu.mem.fillZeros addr size).toOption.map fun out => { cpu with mem := out.2 }
  | .execute word =>
      match decode word with
      | .error _ => none
      | .ok inst => (cpu.execute inst).toOption.map Prod.snd
  | .step => cpu.step.toOption.map Prod.snd
  | .run => cpu.run.toOption.map Prod.snd

/-- A step that returns an error leaves registers and memory as they were, and
the error is `Halt` only for a HLT at the PC. -/
def StepErrorLaw (cpu : Cpu) : Prop :=
  ∀ e next, cpu.step = .ok (.error e, next) →
    next.regs = cpu.regs ∧ next.mem = cpu.mem ∧
      (e = .halt → ∃ word imm16, cpu.fetch = .ok (.ok word) ∧ decode word = .ok (.hlt imm16))

/-- The CPU has halted and the word at its PC decodes to something else than HLT. -/
def HaltedBeforeInstruction (cpu : Cpu) : Prop :=
  cpu.halted = true ∧ ∃ word inst, cpu.fetch = .ok (.ok word) ∧ decode word = .ok inst ∧
    inst.isHlt = false

theorem site_eq_instruction_iff {cpu : Cpu} {inst : Instruction} :
    cpu.site = .instruction inst ↔
      ∃ word, cpu.fetch = .ok (.ok word) ∧ decode word = .ok inst := by
  rw [fetch_eq, site, Memory.site]
  cases cpu.mem.word? cpu.regs.pc.toNat with
  | none => simp
  | some word => cases hDecode : decode word <;> simp [hDecode]

theorem haltedBeforeInstruction_iff {cpu : Cpu} :
    cpu.HaltedBeforeInstruction ↔
      cpu.halted = true ∧ ∃ inst, cpu.site = .instruction inst ∧ inst.isHlt = false := by
  simp only [HaltedBeforeInstruction, site_eq_instruction_iff]
  constructor
  · rintro ⟨hHalted, word, inst, hFetch, hDecode, hHlt⟩
    exact ⟨hHalted, inst, ⟨word, hFetch, hDecode⟩, hHlt⟩
  · rintro ⟨hHalted, inst, ⟨word, hFetch, hDecode⟩, hHlt⟩
    exact ⟨hHalted, word, inst, hFetch, hDecode, hHlt⟩

/-- The law of every CPU. It fails in exactly one situation. There the instruction
takes its effect, PC stays, and the step reports a halt that the word does not ask for. -/
theorem stepErrorLaw_iff (cpu : Cpu) : cpu.StepErrorLaw ↔ ¬ cpu.HaltedBeforeInstruction := by
  rw [haltedBeforeInstruction_iff]
  constructor
  · rintro law ⟨hHalted, inst, hSite, hHlt⟩
    have hStep := step_eq cpu
    simp only [hSite, hHalted, Bool.true_or, if_true] at hStep
    obtain ⟨-, -, hWord⟩ := law _ _ hStep
    obtain ⟨word, imm16, hFetch, hDecode⟩ := hWord rfl
    rw [site_eq_instruction_iff.mpr ⟨word, hFetch, hDecode⟩] at hSite
    cases hSite
    cases hHlt
  · intro hNot e next hStep
    rcases step_error hStep with ⟨hError, rfl⟩ | ⟨inst, hSite, hHalts, rfl, rfl⟩
    · exact ⟨rfl, rfl, fun hHalt => (hError hHalt).elim⟩
    · cases hHlt : inst.isHlt with
      | true =>
          obtain ⟨word, hFetch, hDecode⟩ := site_eq_instruction_iff.mp hSite
          obtain ⟨imm16, rfl⟩ := Instruction.eq_hlt_of_isHlt hHlt
          exact ⟨rfl, rfl, fun _ => ⟨word, imm16, hFetch, hDecode⟩⟩
      | false =>
          rw [hHlt] at hHalts
          exact (hNot ⟨hHalts.resolve_right Bool.false_ne_true, inst, hSite, hHlt⟩).elim

/-- Over every sequence of public operations on a new CPU: in each state reached
the law of `step` on errors holds unless the CPU has halted before and its PC
now stands at an instruction other than HLT. That the state is reached plays no part
in it: `stepErrorLaw_iff` is the same law for every CPU whatever. -/
theorem step_error_law_on_runs (mem : Memory) (ops : List PublicOp) :
    ∀ cpu ∈ replay applyOp (Cpu.new mem) ops,
      (cpu.StepErrorLaw ↔ ¬ cpu.HaltedBeforeInstruction) :=
  fun cpu _ => cpu.stepErrorLaw_iff

/-- `HLT #0` of the decoder at 0, followed by `ADD X0, X1, #5`. -/
def haltThenAdd : Memory :=
  ⟨⟨toLeBytes 0xD4030000 ++ toLeBytes 0x91001420, by simp⟩⟩

/-- The CPU that has halted at 0 and was then moved on to the ADD. -/
def movedPastHalt : Cpu := { regs := Registers.new.writePc 4, mem := haltThenAdd, halted := true }

theorem movedPastHalt_reached :
    replay applyOp (Cpu.new haltThenAdd) [.step, .writePc 4] = some movedPastHalt := by
  decide +kernel

theorem step_error_law_on_movedPastHalt :
    replay applyOp (Cpu.new haltThenAdd) [.step, .writePc 4] = some movedPastHalt ∧
      (movedPastHalt.StepErrorLaw ↔ ¬ movedPastHalt.HaltedBeforeInstruction) :=
  ⟨movedPastHalt_reached,
    step_error_law_on_runs haltThenAdd [.step, .writePc 4] movedPastHalt movedPastHalt_reached⟩

/-- A reachable CPU whose next step writes X0, stays at the ADD and returns `Halt`. -/
theorem step_past_halt_executes_add :
    ∃ (ops : List PublicOp) (cpu next : Cpu), replay applyOp (Cpu.new haltThenAdd) ops = some cpu ∧
      cpu.fetch = .ok (.ok 0x91001420) ∧ cpu.step = .ok (.error .halt, next) ∧
      cpu.readReg 0 = .ok 0 ∧ next.readReg 0 = .ok 5 ∧ next.readPc = cpu.readPc ∧
      ¬ cpu.StepErrorLaw := by
  have hStep : movedPastHalt.step = .ok (.error .halt,
      { movedPastHalt with regs := movedPastHalt.regs.put 0 5 }) := by
    decide +kernel
  refine ⟨_, movedPastHalt, _, movedPastHalt_reached, by decide +kernel, hStep, by decide +kernel,
    by decide +kernel, by decide +kernel, ?_⟩
  intro law
  have hSame := (law _ _ hStep).1
  exact absurd hSame (by decide +kernel)

end Cpu

end Simulator
