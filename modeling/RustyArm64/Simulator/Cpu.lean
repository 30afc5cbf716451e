import RustyArm64.Base.CountedLoop
import RustyArm64.Simulator.Executor

/-! The CPU: fetch, decode, execute, and the run loop. -/
namespace Simulator

inductive CpuError where
  /-- The program executed a HLT instruction. -/
  | halt
  /-- An unrecognized instruction word was encountered. -/
  | unknownInstruction (word : UInt32)
  /-- Memory access at the given address was out of bounds. -/
  | memoryFault (addr : UInt64)
  deriving DecidableEq, Repr

structure Cpu where
  regs : Registers
  mem : Memory
  /-- True when the processor has halted. No operation ever clears it. -/
  halted : Bool
  deriving DecidableEq

namespace Cpu

open CountedLoop

def new (memory : Memory) : Cpu := { regs := Registers.new, mem := memory, halted := false }

/-- The index assertion of `read_reg` and `write_reg`. -/
def assertIndex (index : UInt64) : Outcome UInt8 :=
  if index ≤ 30 then .ok index.toUInt8 else .error (.registerIndex index.toNat)

def readReg (cpu : Cpu) (index : UInt64) : Outcome UInt64 := do
  cpu.regs.read (← assertIndex index)

def writeReg (cpu : Cpu) (index value : UInt64) : Outcome Cpu := do
  let regs ← cpu.regs.write (← assertIndex index) value
  return { cpu with regs }

def readSp (cpu : Cpu) : UInt64 := cpu.regs.readSp

def writeSp (cpu : Cpu) (value : UInt64) : Cpu := { cpu with regs := cpu.regs.writeSp value }

def readPc (cpu : Cpu) : UInt64 := cpu.regs.readPc

def writePc (cpu : Cpu) (value : UInt64) : Cpu := { cpu with regs := cpu.regs.writePc value }

/-- NZCV in bits 31 to 28. -/
def readPstate (cpu : Cpu) : UInt64 :=
  let (n, z, c, v) := cpu.regs.getFlags
  (if n then (1 : UInt64) <<< 31 else 0) ||| (if z then (1 : UInt64) <<< 30 else 0) |||
    (if c then (1 : UInt64) <<< 29 else 0) ||| (if v then (1 : UInt64) <<< 28 else 0)

def setFlags (cpu : Cpu) (n z c v : Bool) : Cpu := { cpu with regs := cpu.regs.setFlags n z c v }

def writePstate (cpu : Cpu) (value : UInt64) : Cpu :=
  cpu.setFlags ((value >>> 31) &&& 1 == 1) ((value >>> 30) &&& 1 == 1)
    ((value >>> 29) &&& 1 == 1) ((value >>> 28) &&& 1 == 1)

def isHalted (cpu : Cpu) : Bool := cpu.halted

/-- Fetch a 32-bit instruction from memory at the current PC. -/
def fetch (cpu : Cpu) : Outcome (Except CpuError UInt32) := do
  let pc := cpu.readPc
  match ← cpu.mem.readU32 pc with
  | .error _ => return .error (.memoryFault pc)
  | .ok word => return .ok word

/-- Execute a decoded instruction. -/
def execute (cpu : Cpu) (inst : Instruction) : Outcome (Except CpuError Unit × Cpu) := do
  let (result, regs, mem, halted) ← executeInstruction cpu.regs cpu.mem cpu.halted inst
  let cpu : Cpu := { regs, mem, halted }
  match result with
  | .error (.memoryFault a) => return (.error (.memoryFault a), cpu)
  | .ok () => if cpu.halted then return (.error .halt, cpu) else return (.ok (), cpu)

/-- Fetch, decode and execute a single instruction. -/
def step (cpu : Cpu) : Outcome (Except CpuError Unit × Cpu) := do
  let pc := cpu.readPc
  match ← cpu.fetch with
  | .error e => return (.error e, cpu)
  | .ok instWord =>
    match decode instWord with
    | .error _ => return (.error (.unknownInstruction instWord), cpu)
    | .ok inst => do
      let (result, regs, mem, halted) ← executeInstruction cpu.regs cpu.mem cpu.halted inst
      let cpu : Cpu := { regs, mem, halted }
      match result with
      | .error (.memoryFault a) => return (.error (.memoryFault a), cpu)
      | .ok () =>
        -- The flag is tested after the execution and may have been set before.
        if cpu.halted then return (.error .halt, cpu)
        else return (.ok (), cpu.writePc (pc + 4))

/-- What stands at an address, as `step` sees it. -/
inductive Site where
  | outOfBounds
  | undecodable (word : UInt32)
  | instruction (inst : Instruction)
  deriving DecidableEq, Repr

end Cpu

/-- The site at an exact address. -/
def Memory.site (m : Memory) (a : Nat) : Cpu.Site :=
  match m.word? a with
  | none => .outOfBounds
  | some word =>
    match decode word with
    | .error _ => .undecodable word
    | .ok inst => .instruction inst

theorem Memory.site_eq_instruction {m : Memory} {a : Nat} {inst : Instruction}
    (h : m.site a = .instruction inst) :
    ∃ word, m.word? a = some word ∧ decode word = .ok inst := by
  unfold Memory.site at h
  split at h
  · cases h
  · rename_i word hWord
    split at h
    · cases h
    · rename_i hDecode
      cases h
      exact ⟨word, hWord, hDecode⟩

theorem Memory.site_of_decode {m : Memory} {a : Nat} {word : UInt32} {inst : Instruction}
    (hWord : m.word? a = some word) (hDecode : decode word = .ok inst) :
    m.site a = .instruction inst := by
  simp only [Memory.site, hWord, hDecode]

namespace Cpu

open CountedLoop

def site (cpu : Cpu) : Site := cpu.mem.site cpu.regs.pc.toNat

/-- A fetch does not panic, and is refused where the word does not lie in memory. The PC need
not be aligned. -/
theorem fetch_eq (cpu : Cpu) :
    cpu.fetch = .ok (match cpu.mem.word? cpu.regs.pc.toNat with
      | some word => .ok word
      | none => .error (.memoryFault cpu.regs.pc)) := by
  simp only [fetch, readPc, Registers.readPc, Memory.readU32_eq, Outcome.ok_bind]
  cases cpu.mem.word? cpu.regs.pc.toNat <;> rfl

/-- Everything a step can do. It never panics, and an instruction takes its
effect before the halt flag is looked at. -/
theorem step_eq (cpu : Cpu) :
    cpu.step = .ok (match cpu.site with
      | .outOfBounds => (.error (.memoryFault cpu.regs.pc), cpu)
      | .undecodable word => (.error (.unknownInstruction word), cpu)
      | .instruction inst =>
        let next : Cpu := ⟨effect cpu.regs inst, cpu.mem, cpu.halted || inst.isHlt⟩
        if cpu.halted || inst.isHlt then (.error .halt, next)
        else (.ok (), next.writePc (cpu.regs.pc + 4))) := by
  unfold step site Memory.site
  rw [fetch_eq]
  cases hWord : cpu.mem.word? cpu.regs.pc.toNat with
  | none => rfl
  | some word =>
      simp only [Outcome.ok_bind]
      cases hDecode : decode word with
      | error e => rfl
      | ok inst =>
          simp only [executeInstruction_eq _ _ _ (decode_wellFormed hDecode), Outcome.ok_bind]
          cases hHalt : cpu.halted || inst.isHlt <;> rfl

/-- No step panics, from any state. The decoder yields no register index above 31 and no
shift above 48, which is what the executor would panic at. -/
theorem step_ne_panic (cpu : Cpu) : ∃ result next, cpu.step = .ok (result, next) := by
  rw [step_eq]
  exact ⟨_, _, rfl⟩

/-- A step at a decodable word. -/
theorem step_of_decode {cpu : Cpu} {word : UInt32} {inst : Instruction}
    (hWord : cpu.mem.word? cpu.regs.pc.toNat = some word) (hDecode : decode word = .ok inst) :
    cpu.step = .ok (
      let next : Cpu := ⟨effect cpu.regs inst, cpu.mem, cpu.halted || inst.isHlt⟩
      if cpu.halted || inst.isHlt then (.error .halt, next)
      else (.ok (), next.writePc (cpu.regs.pc + 4))) := by
  have hSite : cpu.site = .instruction inst := Memory.site_of_decode hWord hDecode
  rw [step_eq, hSite]

/-- Distance of the PC to the end of memory. -/
def remaining (cpu : Cpu) : Nat := cpu.mem.bytes.length - cpu.regs.pc.toNat

/-- A successful step fetched four bytes below the end of memory, so that
advancing the PC cannot wrap around. -/
theorem step_ok {cpu next : Cpu} (h : cpu.step = .ok (.ok (), next)) :
    ∃ inst, cpu.site = .instruction inst ∧ cpu.halted = false ∧ inst.isHlt = false ∧
      next = ⟨(effect cpu.regs inst).writePc (cpu.regs.pc + 4), cpu.mem, false⟩ ∧
      next.regs.pc.toNat = cpu.regs.pc.toNat + 4 ∧
      cpu.regs.pc.toNat + 4 ≤ cpu.mem.bytes.length := by
  rw [step_eq] at h
  cases hSite : cpu.site with
  | outOfBounds => simp [hSite] at h
  | undecodable word => simp [hSite] at h
  | instruction inst =>
      obtain ⟨word, hWord, -⟩ := Memory.site_eq_instruction hSite
      have hInside := Memory.word?_isSome hWord
      have hSize := cpu.mem.bytes_length_lt
      have hFour : (4 : UInt64).toNat = 4 := rfl
      have hPc : (cpu.regs.pc + 4).toNat = cpu.regs.pc.toNat + 4 := toNat_add_of_lt (by omega)
      simp only [hSite] at h
      cases hHalted : cpu.halted with
      | true => simp [hHalted] at h
      | false =>
          cases hHlt : inst.isHlt with
          | true => simp [hHlt] at h
          | false =>
              simp only [hHalted, hHlt, Bool.or_self, Bool.false_eq_true, if_false, Except.ok.injEq,
                Prod.mk.injEq, true_and] at h
              subst h
              exact ⟨inst, rfl, rfl, hHlt, rfl, hPc, hInside⟩

/-- A step that fails has found nothing to execute and changed nothing, or it has
executed an instruction and then seen the halt flag. -/
theorem step_error {cpu final : Cpu} {e : CpuError} (h : cpu.step = .ok (.error e, final)) :
    (e ≠ .halt ∧ final = cpu) ∨
    ∃ inst, cpu.site = .instruction inst ∧ (cpu.halted = true ∨ inst.isHlt = true) ∧
      e = .halt ∧ final = ⟨effect cpu.regs inst, cpu.mem, true⟩ := by
  rw [step_eq] at h
  cases hSite : cpu.site with
  | outOfBounds =>
      simp only [hSite] at h
      cases h
      exact Or.inl ⟨CpuError.noConfusion, rfl⟩
  | undecodable word =>
      simp only [hSite] at h
      cases h
      exact Or.inl ⟨CpuError.noConfusion, rfl⟩
  | instruction inst =>
      cases hHalt : cpu.halted || inst.isHlt with
      | false => simp [hSite, hHalt] at h
      | true =>
          simp only [hSite, hHalt, if_true] at h
          cases h
          exact Or.inr ⟨inst, rfl, (Bool.or_eq_true _ _).mp hHalt, rfl, rfl⟩

/-- One turn of the loop in `run`. -/
def runTurn (cpu : Cpu) : Turn Cpu (Outcome (Except CpuError Unit × Cpu)) :=
  match cpu.step with
  | .ok (.ok (), next) => .again next
  | .ok (.error .halt, next) => .leave (.ok (.ok (), next))
  | .ok (.error e, next) => .leave (.ok (.error e, next))
  | .error panic => .leave (.error panic)

/-- The loop of `run` goes round again only after a step that reported success. -/
theorem runTurn_again {cpu next : Cpu} (h : runTurn cpu = .again next) :
    cpu.step = .ok (.ok (), next) := by
  unfold runTurn at h
  split at h <;> simp_all

/-- A turn that leaves the loop hands on the error of `step`, a HLT as `Ok`. -/
theorem runTurn_leave {cpu : Cpu} {out : Outcome (Except CpuError Unit × Cpu)}
    (h : runTurn cpu = .leave out) :
    ∃ e final, cpu.step = .ok (.error e, final) ∧
      out = .ok (if e = .halt then .ok () else .error e, final) := by
  obtain ⟨result, final, hStep⟩ := cpu.step_ne_panic
  rw [runTurn, hStep] at h
  cases result with
  | ok done => cases h
  | error e =>
      refine ⟨e, final, hStep, ?_⟩
      cases e <;> cases h <;> rfl

/-- Each turn brings the PC nearer to the end of the memory, which bounds the turns of `run`.
The PC may wrap around only behind that end. -/
theorem remaining_lt_of_again (cpu next : Cpu) (h : runTurn cpu = .again next) :
    next.remaining < cpu.remaining := by
  obtain ⟨inst, -, -, -, rfl, hPc, hInside⟩ := step_ok (runTurn_again h)
  simp only [remaining, hPc]
  omega

/-- Run the CPU until it halts or encounters an error. The loop has no counter
of its own: it ends because every turn brings the PC closer to the end of memory. -/
def run (cpu : Cpu) : Outcome (Except CpuError Unit × Cpu) :=
  CountedLoop.run runTurn remaining remaining_lt_of_again cpu

end Cpu

end Simulator
