import RustyArm64.Simulator.Decode
import RustyArm64.Simulator.Memory
import RustyArm64.Simulator.Registers

/-! Execution of a single decoded instruction. The three parts of the CPU that
`execute_instruction` borrows mutably are passed in and returned. -/
namespace Simulator

inductive ExecError where
  /-- A memory access was out of bounds. -/
  | memoryFault (addr : UInt64)
  deriving DecidableEq, Repr

/-- Bit `msb` of a 64-bit word. -/
def signBit (value msb : UInt64) : UInt64 := (value >>> msb) &&& 1

/-- The sign bit is read with the shift amount taken modulo 64, as a shift of a `u64` is. -/
theorem signBit_toNat (value msb : UInt64) :
    (signBit value msb).toNat = value.toNat / 2 ^ (msb.toNat % 64) % 2 := by
  rw [signBit, UInt64.toNat_and, UInt64.toNat_shiftRight, Nat.shiftRight_eq_div_pow]
  exact Nat.and_two_pow_sub_one_eq_mod _ 1

/-- The SUB branch: result, carry and overflow. -/
def subParts (sf : Bool) (src operand : UInt64) : UInt64 × Bool × Bool :=
  let res := src - operand
  -- The comparison is on the full source, for the 32-bit form as well.
  let c := decide (src ≥ operand)
  let msb := if sf then 63 else 31
  let srcSign := signBit src msb
  let opSign := signBit operand msb
  let resSign := signBit res msb
  let v := (srcSign != opSign) && (resSign != srcSign)
  (res, c, v)

/-- The ADD branch: result, carry and overflow. -/
def addParts (sf : Bool) (src operand : UInt64) : UInt64 × Bool × Bool :=
  let res := src + operand
  let c :=
    if sf then (checkedAdd src operand).isNone
    else
      let src32 := src.toUInt32
      let op32 := operand.toUInt32
      (checkedAddU32 src32 op32).isNone
  let msb := if sf then 63 else 31
  let srcSign := signBit src msb
  let opSign := signBit operand msb
  let resSign := signBit res msb
  let v := (srcSign == opSign) && (resSign != srcSign)
  (res, c, v)

/-- The value a wide move builds, or `none` for the reserved `opc`. -/
def movWideValue (regs : Registers) (opc hw : UInt8) (imm16 : UInt16) (rd : UInt8) :
    Outcome (Option UInt64) :=
  if opc = 0b10 then do
    return some (← shl imm16.toUInt64 hw)
  else if opc = 0b11 then do
    let existing ← regs.read rd
    let mask := ~~~(← shl 0xFFFF hw)
    return some ((existing &&& mask) ||| (← shl imm16.toUInt64 hw))
  else if opc = 0b00 then do
    return some (~~~(← shl imm16.toUInt64 hw))
  else return none

def executeInstruction (regs : Registers) (mem : Memory) (halted : Bool) (ins : Instruction) :
    Outcome (Except ExecError Unit × Registers × Memory × Bool) :=
  match ins with
  | .addSubImmediate sf op s rd rn imm12 shift => do
    let operand ← shl imm12.toUInt64 (if shift then 12 else 0)
    let src ← regs.read rn
    let (result, carryOut, overflow) :=
      if op then subParts sf src operand else addParts sf src operand
    let result := if sf then result else result &&& 0xFFFFFFFF
    let regs ← regs.write rd result
    if s then
      let msb := if sf then 63 else 31
      let n := signBit result msb == 1
      let z := result == 0
      return (.ok (), regs.setFlags n z carryOut overflow, mem, halted)
    else return (.ok (), regs, mem, halted)
  | .movWideImmediate sf opc hw imm16 rd => do
    match ← movWideValue regs opc hw imm16 rd with
    -- Reserved opc: a no-op.
    | none => return (.ok (), regs, mem, halted)
    | some value =>
      let value := if sf then value else value &&& 0xFFFFFFFF
      let regs ← regs.write rd value
      return (.ok (), regs, mem, halted)
  | .hlt _ => return (.ok (), regs, mem, true)

/-- The operand of ADD and SUB. -/
def immOperand (imm12 : UInt16) (shift : Bool) : UInt64 :=
  imm12.toUInt64 <<< (if shift then 12 else 0)

/-- Result, carry and overflow, with the result narrowed to the operand size. -/
def addSubParts (sf op : Bool) (src operand : UInt64) : UInt64 × Bool × Bool :=
  let parts := if op then subParts sf src operand else addParts sf src operand
  (if sf then parts.1 else parts.1 &&& 0xFFFFFFFF, parts.2)

/-- The value a wide move leaves in its destination, if it writes one. -/
def movWideResult (sf : Bool) (opc hw : UInt8) (imm16 : UInt16) (existing : UInt64) :
    Option UInt64 :=
  let shifted := imm16.toUInt64 <<< hw.toUInt64
  let narrow (value : UInt64) := if sf then value else value &&& 0xFFFFFFFF
  if opc = 0b10 then some (narrow shifted)
  else if opc = 0b11 then some (narrow ((existing &&& ~~~(0xFFFF <<< hw.toUInt64)) ||| shifted))
  else if opc = 0b00 then some (narrow (~~~shifted))
  else none

/-- The registers after an instruction whose fields are in range. -/
def effect (regs : Registers) : Instruction → Registers
  | .addSubImmediate sf op s rd rn imm12 shift =>
    let parts := addSubParts sf op (regs.value rn) (immOperand imm12 shift)
    let written := regs.put rd parts.1
    if s then
      written.setFlags (signBit parts.1 (if sf then 63 else 31) == 1) (parts.1 == 0)
        parts.2.1 parts.2.2
    else written
  | .movWideImmediate sf opc hw imm16 rd =>
    match movWideResult sf opc hw imm16 (regs.value rd) with
    | none => regs
    | some value => regs.put rd value
  | .hlt _ => regs

/-- ADD and SUB neither fail nor panic for indices up to 31, and leave the memory and the
halt flag. -/
theorem executeInstruction_addSub (regs : Registers) (mem : Memory) (halted sf op s : Bool)
    {rd rn : UInt8} (hRd : rd ≤ 31) (hRn : rn ≤ 31) (imm12 : UInt16) (shift : Bool) :
    executeInstruction regs mem halted (.addSubImmediate sf op s rd rn imm12 shift) =
      .ok (.ok (), effect regs (.addSubImmediate sf op s rd rn imm12 shift), mem, halted) := by
  have hShl : shl imm12.toUInt64 (if shift then 12 else 0) = .ok (immOperand imm12 shift) := by
    cases shift <;> rfl
  simp only [executeInstruction, hShl, Outcome.ok_bind, Registers.read_eq hRn,
    Registers.write_eq hRd, Outcome.pure_eq, effect, addSubParts]
  cases s <;> rfl

/-- An instruction with in-range fields never panics or fails. It changes only
the registers, and HLT sets the halt flag. -/
theorem executeInstruction_eq (regs : Registers) (mem : Memory) (halted : Bool)
    {ins : Instruction} (h : ins.WellFormed) :
    executeInstruction regs mem halted ins =
      .ok (.ok (), effect regs ins, mem, halted || ins.isHlt) := by
  cases ins with
  | addSubImmediate sf op s rd rn imm12 shift =>
      obtain ⟨hRd, hRn, -⟩ := h
      have hHlt : (Instruction.addSubImmediate sf op s rd rn imm12 shift).isHlt = false := rfl
      rw [executeInstruction_addSub regs mem halted sf op s hRd hRn, hHlt, Bool.or_false]
  | movWideImmediate sf opc hw imm16 rd =>
      obtain ⟨-, hHw, -, hRd⟩ := h
      have hLt : hw < 64 := by
        rw [UInt8.le_iff_toNat_le] at hHw
        rw [UInt8.lt_iff_toNat_lt]
        exact lt_of_le_of_lt hHw (by decide)
      simp only [executeInstruction, movWideValue, shl_eq_ok hLt, Registers.read_eq hRd,
        Outcome.ok_bind, Outcome.pure_eq, effect, movWideResult, Instruction.isHlt, Bool.or_false]
      split_ifs <;> simp [Registers.write_eq hRd]
  | hlt imm16 => simp [executeInstruction, effect, Instruction.isHlt]

/-- No instruction reads or writes the PC. -/
theorem effect_writePc (regs : Registers) (ins : Instruction) (pc : UInt64) :
    effect (regs.writePc pc) ins = (effect regs ins).writePc pc := by
  cases ins with
  | addSubImmediate sf op s rd rn imm12 shift =>
      simp only [effect, Registers.value_writePc, Registers.put_writePc]
      cases s <;> rfl
  | movWideImmediate sf opc hw imm16 rd =>
      simp only [effect, Registers.value_writePc]
      split
      · rfl
      · exact Registers.put_writePc _ _ _ _
  | hlt imm16 => rfl

@[simp] theorem effect_pc (regs : Registers) (ins : Instruction) :
    (effect regs ins).pc = regs.pc := by
  cases ins with
  | addSubImmediate sf op s rd rn imm12 shift =>
      simp only [effect]
      cases s <;> simp [Registers.setFlags]
  | movWideImmediate sf opc hw imm16 rd =>
      simp only [effect]
      split <;> simp
  | hlt imm16 => rfl

/-- No instruction reads the stack pointer. -/
theorem effect_writeSp (regs : Registers) (ins : Instruction) (sp : UInt64) :
    effect (regs.writeSp sp) ins = (effect regs ins).writeSp sp := by
  cases ins with
  | addSubImmediate sf op s rd rn imm12 shift =>
      simp only [effect, Registers.value_writeSp, Registers.put_writeSp]
      cases s <;> rfl
  | movWideImmediate sf opc hw imm16 rd =>
      simp only [effect, Registers.value_writeSp]
      split
      · rfl
      · exact Registers.put_writeSp _ _ _ _
  | hlt imm16 => rfl

/-- No instruction writes the stack pointer. -/
@[simp] theorem effect_sp (regs : Registers) (ins : Instruction) :
    (effect regs ins).sp = regs.sp := by
  cases ins with
  | addSubImmediate sf op s rd rn imm12 shift =>
      simp only [effect]
      cases s <;> simp [Registers.setFlags]
  | movWideImmediate sf opc hw imm16 rd =>
      simp only [effect]
      split <;> simp
  | hlt imm16 => rfl

end Simulator
