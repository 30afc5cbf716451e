import RustyArm64.Simulator.OperandSize

/-! The 64-bit ADD and SUB (immediate), compared with exact integers. -/
namespace Simulator

open BitVec (Nzcv addSubResult)

/-- The sum or difference without a bound. -/
def exactAddSub (op : Bool) (x y : Int) : Int := if op then x - y else x + y

/-- The operand is nonnegative in the signed reading as well. -/
theorem immOperand_toInt (imm12 : UInt16) (shift : Bool) :
    (immOperand imm12 shift).toBitVec.toInt = immediate imm12 shift := by
  have hLt := immediate_lt imm12 shift
  have hNat : (immOperand imm12 shift).toBitVec.toNat = immediate imm12 shift :=
    immOperand_toNat imm12 shift
  rw [BitVec.toInt_eq_toNat_of_lt (by omega), hNat]

/-- The code's result and flags are those of `AddWithCarry`. -/
theorem addSubOutcome_wide (op : Bool) (src : UInt64) (imm12 : UInt16) (shift : Bool) :
    let outcome := addSubOutcome true op src (immOperand imm12 shift)
    let out := addSubResult op src.toBitVec (immOperand imm12 shift).toBitVec
    outcome.1.toBitVec = out.1 ∧ outcome.2 = out.2 := by
  obtain ⟨hResult, hFlags⟩ := addSubOutcome_eq true op src (immOperand imm12 shift)
  have hCarry := (addSubOutcome_carry true op src _ (immOperand_lt imm12 shift)).mpr
    fun h => Bool.noConfusion h.1
  rw [hCarry] at hFlags
  simp only [operandSize] at hResult hFlags
  exact ⟨BitVec.eq_of_toNat_eq hResult, hFlags⟩

section Exact

variable (op : Bool) (src : UInt64) (imm12 : UInt16) (shift : Bool)

/-- The 64-bit result is the exact one modulo 2^64. -/
theorem wideAddSub_result :
    ((addSubResult op src.toBitVec (immOperand imm12 shift).toBitVec).1.toNat : Int) =
      exactAddSub op src.toNat (immediate imm12 shift) % 2 ^ 64 := by
  have hSmall := immediate_lt imm12 shift
  have hOperand : (immOperand imm12 shift).toBitVec.toNat = immediate imm12 shift :=
    immOperand_toNat imm12 shift
  have hSrc := UInt64.toNat_toBitVec src
  rw [BitVec.addSubResult_value op (by decide)]
  cases op with
  | false =>
      simp only [exactAddSub, Bool.false_eq_true, if_false, BitVec.toNat_add, hSrc, hOperand]
      omega
  | true =>
      simp only [exactAddSub, if_true, BitVec.toNat_sub, hSrc, hOperand]
      omega

/-- The carry of an addition is a wrap, that of a subtraction is no borrow. -/
theorem wideAddSub_carry :
    (addSubResult op src.toBitVec (immOperand imm12 shift).toBitVec).2.c = true ↔
      if op then immediate imm12 shift ≤ src.toNat
      else 2 ^ 64 ≤ src.toNat + immediate imm12 shift := by
  have hOperand : (immOperand imm12 shift).toBitVec.toNat = immediate imm12 shift :=
    immOperand_toNat imm12 shift
  rw [BitVec.addSubResult_carry op (by decide), hOperand, UInt64.toNat_toBitVec]
  cases op <;> exact decide_eq_true_iff

/-- V says that the exact signed result has no 64-bit form. Carry is a fact about the unsigned
values and is settled beside it. -/
theorem wideAddSub_overflow :
    (addSubResult op src.toBitVec (immOperand imm12 shift).toBitVec).2.v = true ↔
      ¬(-2 ^ 63 ≤ exactAddSub op src.toBitVec.toInt (immediate imm12 shift) ∧
        exactAddSub op src.toBitVec.toInt (immediate imm12 shift) < 2 ^ 63) := by
  rw [BitVec.addSubResult_overflow op (by decide), ← immOperand_toInt imm12 shift]
  cases op with
  | false => exact BitVec.saddOverflow_iff
  | true => exact BitVec.ssubOverflow_iff

end Exact

/-- The flags of a subtraction compare the operands, unsigned and signed. -/
theorem wideSub_compares (src : UInt64) (imm12 : UInt16) (shift : Bool) :
    let flags := (addSubResult true src.toBitVec (immOperand imm12 shift).toBitVec).2
    (flags.c = true ↔ immediate imm12 shift ≤ src.toNat) ∧
    (flags.n ≠ flags.v ↔ src.toBitVec.toInt < immediate imm12 shift) ∧
    (flags.z = true ↔ src.toNat = immediate imm12 shift) := by
  intro flags
  have hFlags : flags = _ := congrArg Prod.snd
    (BitVec.addWithCarry_sub (by decide) src.toBitVec (immOperand imm12 shift).toBitVec)
  refine ⟨wideAddSub_carry true src imm12 shift, ?_, ?_⟩
  · rw [hFlags, ← immOperand_toInt imm12 shift]
    exact BitVec.msb_sub_ne_ssubOverflow src.toBitVec (immOperand imm12 shift).toBitVec
  · have hZero : (0 : BitVec 64) + (immOperand imm12 shift).toBitVec =
        (immOperand imm12 shift).toBitVec := BitVec.zero_add _
    rw [hFlags, beq_iff_eq, BitVec.sub_eq_iff_eq_add, hZero, UInt64.toBitVec_inj,
      ← UInt64.toNat_inj, immOperand_toNat]

/-- The registers after a 64-bit ADD or SUB with the source `x`, the operand `y`
and the result `result`. -/
structure WideOutcome (op s : Bool) (rd : UInt8) (x : UInt64) (y : Nat) (result : UInt64)
    (before after : Registers) : Prop where
  result_eq : (result.toNat : Int) = exactAddSub op x.toNat y % 2 ^ 64
  written : rd ≤ 30 → after.read rd = .ok result
  others : ∀ index, index ≠ rd → after.read index = before.read index
  discarded : rd = 31 → after.x = before.x
  sp : after.sp = before.sp
  pc : after.pc = before.pc
  kept : s = false → after.nzcv = before.nzcv
  reference : s = true → after.nzcv = (addSubResult op x.toBitVec (BitVec.ofNat 64 y)).2
  negative : s = true → after.n = result.toBitVec.msb
  zero : s = true → (after.z = true ↔ result = 0)
  carry : s = true → (after.c = true ↔ if op then y ≤ x.toNat else 2 ^ 64 ≤ x.toNat + y)
  overflow : s = true → (after.v = true ↔
    ¬(-2 ^ 63 ≤ exactAddSub op x.toBitVec.toInt y ∧ exactAddSub op x.toBitVec.toInt y < 2 ^ 63))
  compares : s = true → op = true → (after.c = true ↔ y ≤ x.toNat) ∧
    (after.n ≠ after.v ↔ x.toBitVec.toInt < y) ∧ (after.z = true ↔ x.toNat = y)

section Effect

variable (op s : Bool) (rd rn : UInt8) (imm12 : UInt16) (shift : Bool) (regs : Registers)

/-- The result of the 64-bit form. -/
def wideResult : UInt64 := (addSubParts true op (regs.value rn) (immOperand imm12 shift)).1

/-- The registers after the 64-bit form. -/
def wideAfter : Registers := effect regs (.addSubImmediate true op s rd rn imm12 shift)

theorem wideAfter_x : (wideAfter op s rd rn imm12 shift regs).x =
    (regs.put rd (wideResult op rn imm12 shift regs)).x := by
  cases s <;> rfl

/-- The stack pointer is never written, although rd = 31 names it when S = 0. -/
theorem wideAfter_sp : (wideAfter op s rd rn imm12 shift regs).sp = regs.sp := by
  cases s <;> simp [wideAfter, effect, Registers.setFlags]

/-- Every register but the destination is as before, and index 31 reads zero. -/
theorem wideAfter_read (index : UInt8) : (wideAfter op s rd rn imm12 shift regs).read index =
    (regs.put rd (wideResult op rn imm12 shift regs)).read index := by
  cases s <;> rfl

theorem wideResult_toBitVec : (wideResult op rn imm12 shift regs).toBitVec =
    (addSubResult op (regs.value rn).toBitVec (immOperand imm12 shift).toBitVec).1 :=
  (addSubOutcome_wide op (regs.value rn) imm12 shift).1

theorem wideAfter_nzcv : (wideAfter op true rd rn imm12 shift regs).nzcv =
    (addSubResult op (regs.value rn).toBitVec (immOperand imm12 shift).toBitVec).2 :=
  (addSubOutcome_wide op (regs.value rn) imm12 shift).2

/-- The whole law for one instruction: destination, flags and everything else. -/
theorem wideAfter_outcome : WideOutcome op s rd (regs.value rn) (immediate imm12 shift)
    (wideResult op rn imm12 shift regs) regs (wideAfter op s rd rn imm12 shift regs) := by
  have hRead := wideAfter_read op s rd rn imm12 shift regs
  have hResult := wideResult_toBitVec op rn imm12 shift regs
  have hOperand : BitVec.ofNat 64 (immediate imm12 shift) = (immOperand imm12 shift).toBitVec := by
    rw [← immOperand_toNat]
    exact BitVec.ofNat_toNat 64 (immOperand imm12 shift).toBitVec
  have hNzcv : s = true → (wideAfter op s rd rn imm12 shift regs).nzcv =
      (addSubResult op (regs.value rn).toBitVec (immOperand imm12 shift).toBitVec).2 := by
    rintro rfl
    exact wideAfter_nzcv op rd rn imm12 shift regs
  have hN (h : s = true) := congrArg Nzcv.n (hNzcv h)
  have hZ (h : s = true) := congrArg Nzcv.z (hNzcv h)
  have hC (h : s = true) := congrArg Nzcv.c (hNzcv h)
  have hV (h : s = true) := congrArg Nzcv.v (hNzcv h)
  simp only [Registers.nzcv] at hN hZ hC hV
  refine ⟨?_, fun hRd => ?_, fun index hIndex => ?_, ?_, wideAfter_sp op s rd rn imm12 shift regs,
    effect_pc _ _, ?_, fun hS => ?_, fun hS => ?_, fun hS => ?_, fun hS => ?_, fun hS => ?_,
    fun hS => ?_⟩
  · rw [← wideAddSub_result, ← hResult, UInt64.toNat_toBitVec]
  · rw [hRead, Registers.read_put_self regs hRd]
  · rw [hRead, Registers.read_put_of_ne regs (Ne.symm hIndex)]
  · rintro rfl
    rw [wideAfter_x]
    rfl
  · rintro rfl
    simp [wideAfter, effect, Registers.nzcv]
  · rw [hNzcv hS, hOperand]
  · rw [hN hS, BitVec.addSubResult_negative, hResult]
  · rw [hZ hS, BitVec.addSubResult_zero, ← hResult, beq_iff_eq]
    exact UInt64.toBitVec_inj
  · rw [hC hS, wideAddSub_carry]
  · rw [hV hS, wideAddSub_overflow]
  · rintro rfl
    rw [hN hS, hZ hS, hC hS, hV hS]
    exact wideSub_compares (regs.value rn) imm12 shift

end Effect

/-- A 64-bit ADD or SUB (immediate) computes modulo `2 ^ 64`, and its flags are
those of the exact result. It does not hold of the 32-bit forms, whose carry can differ. -/
theorem wide_addSub_exact (op s : Bool) (rd rn : UInt8) (imm12 : UInt16) (shift : Bool)
    (regs : Registers) (mem : Memory) (halted : Bool) (x : UInt64) (hRead : regs.read rn = .ok x)
    (hRd : rd ≤ 31) :
    ∃ after result,
      executeInstruction regs mem halted (.addSubImmediate true op s rd rn imm12 shift) =
        .ok (.ok (), after, mem, halted) ∧
      WideOutcome op s rd x (immediate imm12 shift) result regs after := by
  obtain ⟨hRn, rfl⟩ := Registers.of_read_ok hRead
  exact ⟨_, _, executeInstruction_addSub regs mem halted true op s hRd hRn imm12 shift,
    wideAfter_outcome op s rd rn imm12 shift regs⟩

/-- `CMP X1, #1, LSL #12` on a register file whose X1 is 4095. -/
theorem wide_addSub_exact_cmp :
    ∃ after result, executeInstruction (Registers.new.put 1 4095) (Memory.new 0) false
        (.addSubImmediate true true true 31 1 1 true) = .ok (.ok (), after, Memory.new 0, false) ∧
      WideOutcome true true 31 4095 (immediate 1 true) result (Registers.new.put 1 4095) after :=
  wide_addSub_exact true true 31 1 1 true (Registers.new.put 1 4095) (Memory.new 0) false 4095
    (by decide +kernel) (by decide)

end Simulator
