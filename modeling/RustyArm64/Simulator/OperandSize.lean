import RustyArm64.Base.AddWithCarry
import RustyArm64.Simulator.Executor

/-! ADD and SUB (immediate) at either operand size, next to `AddWithCarry` of the
architecture. Only the carry of the 32-bit SUB can differ. -/
namespace Simulator

open BitVec (Nzcv addSubResult saddOverflow ssubOverflow)

def Registers.nzcv (regs : Registers) : Nzcv := ⟨regs.n, regs.z, regs.c, regs.v⟩

/-- The bits that an instruction with this `sf` works on. -/
def operandSize (sf : Bool) : Nat := if sf then 64 else 32

/-- The operand that the immediate stands for. -/
def immediate (imm12 : UInt16) (shift : Bool) : Nat := imm12.toNat * (if shift then 4096 else 1)

/-- What the code leaves of ADD and SUB for a source `src`: the result, and NZCV. -/
def addSubOutcome (sf op : Bool) (src operand : UInt64) : UInt64 × Nzcv :=
  let parts := addSubParts sf op src operand
  (parts.1, ⟨signBit parts.1 (if sf then 63 else 31) == 1, parts.1 == 0, parts.2.1, parts.2.2⟩)

theorem immOperand_toNat (imm12 : UInt16) (shift : Bool) :
    (immOperand imm12 shift).toNat = immediate imm12 shift := by
  have hLt : imm12.toNat < 65536 := imm12.toNat_lt
  rw [immOperand, immediate, UInt64.toNat_shiftLeft, UInt16.toNat_toUInt64, Nat.shiftLeft_eq]
  cases shift with
  | false => exact Nat.mod_eq_of_lt (by simpa using lt_trans hLt (by decide))
  | true => exact Nat.mod_eq_of_lt (by simpa using by omega)

theorem immediate_lt (imm12 : UInt16) (shift : Bool) : immediate imm12 shift < 2 ^ 28 := by
  have hLt : imm12.toNat < 65536 := imm12.toNat_lt
  unfold immediate
  cases shift <;> simp only [Bool.false_eq_true, if_false, if_true] <;> omega

/-- An immediate fits the smaller operand size. -/
theorem immOperand_lt (imm12 : UInt16) (shift : Bool) :
    (immOperand imm12 shift).toNat < 2 ^ 32 := by
  rw [immOperand_toNat]
  exact (immediate_lt imm12 shift).trans (by decide)

/-- The low bits of a register. -/
def lowBits (w : Nat) (word : UInt64) : BitVec w := word.toBitVec.setWidth w

section LowBits

variable {w : Nat}

theorem lowBits_toNat (word : UInt64) : (lowBits w word).toNat = word.toNat % 2 ^ w := by
  rw [lowBits, BitVec.toNat_setWidth, UInt64.toNat_toBitVec]

@[simp] theorem lowBits_wide (word : UInt64) : lowBits 64 word = word.toBitVec :=
  BitVec.setWidth_eq word.toBitVec

/-- Adding commutes with cutting off upper bits, at either size. -/
theorem lowBits_add (hWidth : w ≤ 64) (a b : UInt64) :
    lowBits w (a + b) = lowBits w a + lowBits w b := by
  rw [lowBits, UInt64.toBitVec_add, BitVec.setWidth_add _ _ hWidth]
  rfl

theorem lowBits_sub (hWidth : w ≤ 64) (a b : UInt64) :
    lowBits w (a - b) = lowBits w a - lowBits w b := by
  rw [lowBits, UInt64.toBitVec_sub, BitVec.sub_eq_add_neg, BitVec.setWidth_add _ _ hWidth,
    BitVec.setWidth_neg_of_le hWidth, ← BitVec.sub_eq_add_neg]
  rfl

variable {msb : UInt64} (hMsb : msb.toNat + 1 = w) (hWidth : w ≤ 64)

include hMsb hWidth

/-- The code's sign bit, at the width whose highest bit it is asked for. -/
theorem signBit_eq (word : UInt64) :
    signBit word msb = if (lowBits w word).msb then 1 else 0 := by
  subst hMsb
  have hBit := signBit_toNat word msb
  have hLow := lowBits_toNat (w := msb.toNat + 1) word
  rw [Nat.mod_eq_of_lt (by omega : msb.toNat < 64)] at hBit
  have hSplit : word.toNat % 2 ^ (msb.toNat + 1) =
      word.toNat % 2 ^ msb.toNat + 2 ^ msb.toNat * (word.toNat / 2 ^ msb.toNat % 2) := by
    rw [Nat.pow_succ, Nat.mod_mul]
  have hRest := Nat.mod_lt word.toNat (Nat.two_pow_pos msb.toNat)
  apply UInt64.toNat_inj.mp
  rw [hBit, BitVec.msb_eq_decide, Nat.add_sub_cancel, hLow, hSplit]
  rcases Nat.mod_two_eq_zero_or_one (word.toNat / 2 ^ msb.toNat) with hZero | hOne
  · rw [hZero, Nat.mul_zero, Nat.add_zero, decide_eq_false (by omega), if_neg Bool.false_ne_true]
    rfl
  · rw [hOne, Nat.mul_one, decide_eq_true (Nat.le_add_left _ _), if_pos rfl]
    rfl

theorem signBit_beq_one (word : UInt64) : (signBit word msb == 1) = (lowBits w word).msb := by
  rw [signBit_eq hMsb hWidth]
  cases (lowBits w word).msb <;> rfl

/-- The test of three signs in the source is the overflow of the sum at the operand size. -/
theorem signs_add (src operand : UInt64) :
    ((signBit src msb == signBit operand msb) &&
      (signBit (src + operand) msb != signBit src msb)) =
        saddOverflow (lowBits w src) (lowBits w operand) := by
  rw [signBit_eq hMsb hWidth, signBit_eq hMsb hWidth, signBit_eq hMsb hWidth, lowBits_add hWidth,
    BitVec.saddOverflow_eq]
  cases (lowBits w src).msb <;> cases (lowBits w operand).msb <;>
    cases (lowBits w src + lowBits w operand).msb <;> rfl

/-- The same for the difference. Only the first of the three tests is turned around. -/
theorem signs_sub (src operand : UInt64) :
    ((signBit src msb != signBit operand msb) &&
      (signBit (src - operand) msb != signBit src msb)) =
        ssubOverflow (lowBits w src) (lowBits w operand) := by
  rw [signBit_eq hMsb hWidth, signBit_eq hMsb hWidth, signBit_eq hMsb hWidth, lowBits_sub hWidth,
    BitVec.ssubOverflow_eq]
  cases (lowBits w src).msb <;> cases (lowBits w operand).msb <;>
    cases (lowBits w src - lowBits w operand).msb <;> rfl

end LowBits

section Outcome

variable (sf op : Bool) (src operand : UInt64)

theorem operandSize_pos : 0 < operandSize sf := by cases sf <;> decide

theorem operandSize_le : operandSize sf ≤ 64 := by cases sf <;> decide

/-- The position that the code takes the sign from. -/
theorem msb_operandSize : (if sf then 63 else 31 : UInt64).toNat + 1 = operandSize sf := by
  cases sf <;> rfl

/-- What the code keeps of a value. -/
theorem narrowed_toNat (value : UInt64) : (if sf then value else value &&& 0xFFFFFFFF).toNat =
    (lowBits (operandSize sf) value).toNat := by
  rw [lowBits_toNat]
  cases sf with
  | true => exact (Nat.mod_eq_of_lt value.toNat_lt).symm
  | false =>
      rw [if_neg Bool.false_ne_true, UInt64.toNat_and,
        show (0xFFFFFFFF : UInt64).toNat = 2 ^ 32 - 1 from rfl, Nat.and_two_pow_sub_one_eq_mod]
      rfl

/-- Masking the upper half away is invisible at the operand size. -/
theorem lowBits_narrowed (value : UInt64) :
    lowBits (operandSize sf) (if sf then value else value &&& 0xFFFFFFFF) =
      lowBits (operandSize sf) value := by
  apply BitVec.eq_of_toNat_eq
  rw [lowBits_toNat, narrowed_toNat, Nat.mod_eq_of_lt (BitVec.isLt _)]

/-- The zero flag of the source is that of the operand size. -/
theorem narrowed_beq_zero (value : UInt64) :
    ((if sf then value else value &&& 0xFFFFFFFF) == 0) =
      (lowBits (operandSize sf) value == 0) := by
  rw [Bool.eq_iff_iff, beq_iff_eq, beq_iff_eq, ← UInt64.toNat_inj, narrowed_toNat,
    ← BitVec.toNat_inj]
  rfl

/-- The sum, its carry and its overflow, all at the operand size: the addition is right at
both sizes. The carry of the subtraction is not treated here. -/
theorem addParts_eq : addParts sf src operand =
    (src + operand,
      decide (2 ^ operandSize sf ≤
        (lowBits (operandSize sf) src).toNat + (lowBits (operandSize sf) operand).toNat),
      saddOverflow (lowBits (operandSize sf) src) (lowBits (operandSize sf) operand)) := by
  have hOverflow := signs_add (msb_operandSize sf) (operandSize_le sf) src operand
  have hCarry : (addParts sf src operand).2.1 = decide (2 ^ operandSize sf ≤
      (lowBits (operandSize sf) src).toNat + (lowBits (operandSize sf) operand).toNat) := by
    cases sf with
    | true =>
        have hParts : (addParts true src operand).2.1 = (checkedAdd src operand).isNone := rfl
        rw [hParts, checkedAdd, operandSize, if_pos rfl, lowBits_wide, lowBits_wide,
          UInt64.toNat_toBitVec, UInt64.toNat_toBitVec]
        split <;> simp <;> omega
    | false =>
        have hParts : (addParts false src operand).2.1 =
            (checkedAddU32 src.toUInt32 operand.toUInt32).isNone := rfl
        rw [hParts, checkedAddU32, UInt64.toNat_toUInt32, UInt64.toNat_toUInt32, lowBits_toNat,
          lowBits_toNat, operandSize, if_neg Bool.false_ne_true]
        split <;> simp <;> omega
  rw [← hOverflow, ← hCarry]
  rfl

/-- The carry of the SUB is taken from the full source at either operand size. -/
theorem subParts_eq : subParts sf src operand =
    (src - operand, decide (operand.toNat ≤ src.toNat),
      ssubOverflow (lowBits (operandSize sf) src) (lowBits (operandSize sf) operand)) := by
  have hOverflow := signs_sub (msb_operandSize sf) (operandSize_le sf) src operand
  have hCarry : decide (src ≥ operand) = decide (operand.toNat ≤ src.toNat) := by
    rw [decide_eq_decide, ge_iff_le, UInt64.le_iff_toNat_le]
  rw [← hOverflow, ← hCarry]
  rfl

/-- The result and the sign, zero and overflow flags are those of `AddWithCarry`. -/
theorem addSubOutcome_eq :
    let out := addSubResult op (lowBits (operandSize sf) src) (lowBits (operandSize sf) operand)
    (addSubOutcome sf op src operand).1.toNat = out.1.toNat ∧
      (addSubOutcome sf op src operand).2 =
        { out.2 with c := (addSubParts sf op src operand).2.1 } := by
  have hSign := signBit_beq_one (msb_operandSize sf) (operandSize_le sf)
  intro out
  have hOut : out = _ := BitVec.addSubResult_eq op (operandSize_pos sf) _ _
  cases op with
  | false =>
      have hParts : addSubParts sf false src operand = _ :=
        congrArg (fun parts : UInt64 × Bool × Bool =>
          (if sf then parts.1 else parts.1 &&& 0xFFFFFFFF, parts.2)) (addParts_eq sf src operand)
      simp only [addSubOutcome, hParts, hOut, hSign, lowBits_narrowed, narrowed_toNat,
        narrowed_beq_zero, lowBits_add (operandSize_le sf), Bool.false_eq_true, if_false, and_self]
  | true =>
      have hParts : addSubParts sf true src operand = _ :=
        congrArg (fun parts : UInt64 × Bool × Bool =>
          (if sf then parts.1 else parts.1 &&& 0xFFFFFFFF, parts.2)) (subParts_eq sf src operand)
      simp only [addSubOutcome, hParts, hOut, hSign, lowBits_narrowed, narrowed_toNat,
        narrowed_beq_zero, lowBits_sub (operandSize_le sf), if_true, and_self]

/-- The 32-bit SUB borrows in the low half, but not in the full source. -/
def BorrowHidden : Prop :=
  sf = false ∧ op = true ∧ 2 ^ 32 ≤ src.toNat ∧ (lowBits 32 src).toNat < operand.toNat

/-- The carry is that of `AddWithCarry` as well, unless a borrow is hidden. -/
theorem addSubOutcome_carry (hOperand : operand.toNat < 2 ^ 32) :
    (addSubParts sf op src operand).2.1 =
        (addSubResult op (lowBits (operandSize sf) src)
          (lowBits (operandSize sf) operand)).2.c ↔
      ¬BorrowHidden sf op src operand := by
  rw [BitVec.addSubResult_carry op (operandSize_pos sf)]
  cases op with
  | false =>
      have hParts : (addSubParts sf false src operand).2.1 = (addParts sf src operand).2.1 := rfl
      rw [hParts, addParts_eq]
      exact iff_of_true rfl fun h => Bool.false_ne_true h.2.1
  | true =>
      have hParts : (addSubParts sf true src operand).2.1 = (subParts sf src operand).2.1 := rfl
      have hSrc := src.toNat_lt
      rw [hParts, subParts_eq, if_pos rfl, decide_eq_decide, BorrowHidden, lowBits_toNat,
        lowBits_toNat, lowBits_toNat]
      cases sf with
      | true =>
          simp only [operandSize, if_true, Bool.true_eq_false, false_and, not_false_iff, iff_true]
          omega
      | false =>
          simp only [operandSize, Bool.false_eq_true, if_false, true_and]
          omega

end Outcome

end Simulator
