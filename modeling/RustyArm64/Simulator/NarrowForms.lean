import RustyArm64.Simulator.OperandSize

/-! The 32-bit instruction forms, compared with a machine that has only the low
halves of the registers. -/
namespace Simulator

open BitVec (Nzcv addSubResult)

/-- The low half of a register. -/
def low32 (word : UInt64) : BitVec 32 := word.toBitVec.setWidth 32

/-- Registers and flags of the 32-bit machine. -/
structure NarrowRegisters where
  w : Vector (BitVec 32) 31
  flags : Nzcv
  deriving DecidableEq

namespace NarrowRegisters

def value (regs : NarrowRegisters) (index : UInt8) : BitVec 32 :=
  if h : index.toNat < 31 then regs.w[index.toNat] else 0

def put (regs : NarrowRegisters) (index : UInt8) (word : BitVec 32) : NarrowRegisters :=
  if h : index.toNat < 31 then { regs with w := regs.w.set index.toNat word } else regs

end NarrowRegisters

def Registers.low (regs : Registers) : NarrowRegisters :=
  ⟨regs.x.map low32, ⟨regs.n, regs.z, regs.c, regs.v⟩⟩

/-- The architecture's effect of the 32-bit forms. -/
def narrowEffect (regs : NarrowRegisters) : Instruction → NarrowRegisters
  | .addSubImmediate _ op s rd rn imm12 shift =>
    let operand := imm12.toBitVec.setWidth 32 <<< (if shift then 12 else 0)
    let out := addSubResult op (regs.value rn) operand
    let written := regs.put rd out.1
    if s then { written with flags := out.2 } else written
  | .movWideImmediate _ opc hw imm16 rd =>
    let field := imm16.toBitVec.setWidth 32 <<< hw.toNat
    if opc = 0b10 then regs.put rd field
    else if opc = 0b11 then
      regs.put rd ((regs.value rd &&& ~~~(0xFFFF#32 <<< hw.toNat)) ||| field)
    else if opc = 0b00 then regs.put rd (~~~field)
    else regs
  | .hlt _ => regs

namespace Instruction

/-- ADD, ADDS, SUB and SUBS on W registers, and MOVZ, MOVN and MOVK on W
registers with a shift that the architecture allows there. -/
def NarrowForm : Instruction → Prop
  | .addSubImmediate sf _ _ _ _ _ _ => sf = false
  | .movWideImmediate sf opc hw _ _ => sf = false ∧ opc ≠ 0b01 ∧ (hw = 0 ∨ hw = 16)
  | .hlt _ => False

def rd? : Instruction → Option UInt8
  | .addSubImmediate _ _ _ rd _ _ _ => some rd
  | .movWideImmediate _ _ _ _ rd => some rd
  | .hlt _ => none

def setsFlags : Instruction → Bool
  | .addSubImmediate _ _ s _ _ _ _ => s
  | _ => false

/-- The instruction is an ADD, a SUB or a wide move with this destination. -/
def writes (r : UInt8) : Instruction → Bool
  | .addSubImmediate _ _ _ rd _ _ _ => rd == r
  -- The reserved `opc` is no wide move.
  | .movWideImmediate _ opc _ _ rd => rd == r && opc != 0b01
  | .hlt _ => false

/-- The form with `sf = 0`. -/
def isNarrow : Instruction → Bool
  | .addSubImmediate sf _ _ _ _ _ _ => !sf
  | .movWideImmediate sf _ _ _ _ => !sf
  | .hlt _ => false

/-- The borrow of the full register differs from the borrow of its low half,
and the instruction stores it in C. -/
def CarryLeak (regs : Registers) : Instruction → Prop
  | .addSubImmediate _ op s _ rn imm12 shift => op = true ∧ s = true ∧
    2 ^ 32 ≤ (regs.value rn).toNat ∧
    (low32 (regs.value rn)).toNat < (immOperand imm12 shift).toNat
  | _ => False

end Instruction

theorem low32_toNat (word : UInt64) : (low32 word).toNat = word.toNat % 2 ^ 32 :=
  lowBits_toNat word

theorem low32_immediate (imm : UInt16) : low32 imm.toUInt64 = imm.toBitVec.setWidth 32 := by
  apply BitVec.eq_of_toNat_eq
  rw [low32_toNat]
  simp

theorem low32_narrow (word : UInt64) : low32 (word &&& 0xFFFFFFFF) = low32 word :=
  lowBits_narrowed false word

theorem narrow_toNat (word : UInt64) : (word &&& 0xFFFFFFFF).toNat = word.toNat % 2 ^ 32 :=
  (narrowed_toNat false word).trans (lowBits_toNat word)

theorem narrow_toNat_lt (word : UInt64) : (word &&& 0xFFFFFFFF).toNat < 2 ^ 32 := by
  rw [narrow_toNat]
  exact Nat.mod_lt _ (by decide)

theorem low32_shiftLeft (a : UInt64) (amount : UInt64) (hAmount : amount.toNat < 64) :
    low32 (a <<< amount) = low32 a <<< amount.toNat := by
  apply BitVec.eq_of_toNat_eq
  rw [low32_toNat, BitVec.toNat_shiftLeft, low32_toNat, UInt64.toNat_shiftLeft,
    Nat.mod_eq_of_lt hAmount, Nat.shiftLeft_eq, Nat.shiftLeft_eq,
    Nat.mod_mod_of_dvd _ (Nat.pow_dvd_pow 2 (by decide)), Nat.mod_mul_mod]

theorem low32_and (a b : UInt64) : low32 (a &&& b) = low32 a &&& low32 b := by
  simp [low32, BitVec.setWidth_and]

theorem low32_or (a b : UInt64) : low32 (a ||| b) = low32 a ||| low32 b := by
  simp [low32, BitVec.setWidth_or]

theorem low32_not (a : UInt64) : low32 (~~~a) = ~~~low32 a := by
  simp [low32, BitVec.setWidth_not]

/-- All outputs of the 32-bit ADD and SUB, next to the architecture's. Only the
carry can differ. -/
theorem addSubOutcome_narrow (op : Bool) (src : UInt64) (imm12 : UInt16) (shift : Bool) :
    let outcome := addSubOutcome false op src (immOperand imm12 shift)
    let out := addSubResult op (low32 src) (low32 (immOperand imm12 shift))
    low32 outcome.1 = out.1 ∧ outcome.2 = { out.2 with c := outcome.2.c } ∧
      (outcome.2.c = out.2.c ↔
        ¬(op = true ∧ 2 ^ 32 ≤ src.toNat ∧
          (low32 src).toNat < (immOperand imm12 shift).toNat)) := by
  intro outcome out
  obtain ⟨hResult, hFlags⟩ := addSubOutcome_eq false op src (immOperand imm12 shift)
  have hCarry := addSubOutcome_carry false op src _ (immOperand_lt imm12 shift)
  refine ⟨BitVec.eq_of_toNat_eq ?_, hFlags, hCarry.trans ?_⟩
  · have hLt := out.1.isLt
    rw [low32_toNat, hResult]
    exact Nat.mod_eq_of_lt hLt
  · rw [BorrowHidden, eq_self, true_and]
    rfl

theorem immOperand_low (imm12 : UInt16) (shift : Bool) :
    low32 (immOperand imm12 shift) = imm12.toBitVec.setWidth 32 <<< (if shift then 12 else 0) := by
  rw [immOperand, low32_shiftLeft _ _ (by cases shift <;> decide), low32_immediate]
  cases shift <;> rfl

namespace Registers

/-- Reading the lower half is the lower half of what is read, for the zero register too. -/
theorem low_value (regs : Registers) (index : UInt8) :
    regs.low.value index = low32 (regs.value index) := by
  unfold NarrowRegisters.value value
  by_cases hIndex : index.toNat < 31
  · simp [hIndex, Nat.le_of_lt_succ hIndex, low]
  · simp only [hIndex, mt Nat.lt_succ_of_le hIndex, dite_false]
    rfl

/-- Writing a word writes its lower half. The other direction does not hold: an upper half
can change while the lower stays. -/
theorem low_put (regs : Registers) (index : UInt8) (word : UInt64) :
    (regs.put index word).low = regs.low.put index (low32 word) := by
  unfold NarrowRegisters.put put
  by_cases hIndex : index.toNat < 31
  · simp [hIndex, Nat.le_of_lt_succ hIndex, low]
  · simp only [hIndex, mt Nat.lt_succ_of_le hIndex, dite_false]

end Registers

/-- The 32-bit machine with the carry set. -/
def NarrowRegisters.withCarry (regs : NarrowRegisters) : NarrowRegisters :=
  { regs with flags := { regs.flags with c := true } }

/-- A narrow move on the lower halves. The shift stays below 64 here; the ISA asks for less. -/
theorem movWide_low (regs : Registers) (opc hw : UInt8) (imm16 : UInt16) (rd : UInt8)
    (hHw : hw.toNat < 64) :
    (effect regs (.movWideImmediate false opc hw imm16 rd)).low =
      narrowEffect regs.low (.movWideImmediate false opc hw imm16 rd) := by
  have hAmount : hw.toUInt64.toNat < 64 := by rwa [UInt8.toNat_toUInt64]
  have hField : low32 (imm16.toUInt64 <<< hw.toUInt64) =
      imm16.toBitVec.setWidth 32 <<< hw.toNat := by
    rw [low32_shiftLeft _ _ hAmount, UInt8.toNat_toUInt64, low32_immediate]
  have hMask : low32 (0xFFFF <<< hw.toUInt64) = 0xFFFF#32 <<< hw.toNat := by
    rw [low32_shiftLeft _ _ hAmount, UInt8.toNat_toUInt64]
    rfl
  simp only [effect, movWideResult, narrowEffect, Bool.false_eq_true, if_false]
  split_ifs
  · simp only [Registers.low_put, low32_narrow, hField]
  · rw [Registers.low_put, low32_narrow]
    simp only [Registers.low_value, low32_or, low32_and, low32_not, hField, hMask]
  · simp only [Registers.low_put, low32_narrow, low32_not, hField]
  · rfl

/-- In a 32-bit SUB that borrows, the architecture clears the carry. -/
theorem addSubResult_borrow {src operand : UInt64} (hOperand : operand.toNat < 2 ^ 32)
    (hBorrow : (low32 src).toNat < operand.toNat) :
    (addSubResult true (low32 src) (low32 operand)).2.c = false := by
  rw [BitVec.addSubResult_carry true (by decide), if_pos rfl, decide_eq_false_iff_not,
    low32_toNat operand, Nat.mod_eq_of_lt hOperand]
  omega

/-- What a narrow ADD or SUB does to the 64-bit registers, before any lower half is taken. -/
theorem addSub_effect (regs : Registers) (op s : Bool) (rd rn : UInt8) (imm12 : UInt16)
    (shift : Bool) :
    let operand := immOperand imm12 shift
    let out := addSubResult op (low32 (regs.value rn)) (low32 operand)
    let written := regs.low.put rd out.1
    (effect regs (.addSubImmediate false op s rd rn imm12 shift)).low =
      if s then
        { written with
          flags := { out.2 with c := (addSubOutcome false op (regs.value rn) operand).2.c } }
      else written := by
  obtain ⟨hResult, hFlags, -⟩ := addSubOutcome_narrow op (regs.value rn) imm12 shift
  intro operand out written
  have hWritten := Registers.low_put regs rd (addSubOutcome false op (regs.value rn) operand).1
  rw [hResult] at hWritten
  cases s with
  | false => exact hWritten
  | true =>
      rw [if_pos rfl, ← hFlags]
      exact congrArg (fun regs => NarrowRegisters.mk regs.w _) hWritten

/-- A narrow ADD or SUB on the lower halves, except for the flags it may set. -/
theorem addSub_low (regs : Registers) (op s : Bool) (rd rn : UInt8) (imm12 : UInt16)
    (shift : Bool) :
    let ins := Instruction.addSubImmediate false op s rd rn imm12 shift
    (ins.CarryLeak regs → (effect regs ins).low = (narrowEffect regs.low ins).withCarry ∧
      (narrowEffect regs.low ins).flags.c = false) ∧
    (¬ins.CarryLeak regs → (effect regs ins).low = narrowEffect regs.low ins) := by
  obtain ⟨-, -, hCarry⟩ := addSubOutcome_narrow op (regs.value rn) imm12 shift
  have hEffect := addSub_effect regs op s rd rn imm12 shift
  simp only [narrowEffect, ← immOperand_low imm12 shift, Registers.low_value]
  refine ⟨?_, ?_⟩
  · rintro ⟨rfl, rfl, hHigh, hBorrow⟩
    have hReference := addSubResult_borrow (immOperand_lt imm12 shift) hBorrow
    have hLeaked := mt hCarry.mp (not_not_intro ⟨rfl, hHigh, hBorrow⟩)
    rw [hReference, Bool.not_eq_false] at hLeaked
    refine ⟨?_, hReference⟩
    rw [hEffect, hLeaked]
    rfl
  · intro hNone
    rw [hEffect]
    cases s with
    | false => rfl
    | true =>
        rw [hCarry.mpr fun hLeak => hNone ⟨hLeak.1, rfl, hLeak.2⟩]

/-- A 32-bit form is the architecture's on the low halves, except that a leaking
carry is set where the architecture clears it. -/
theorem effect_low {ins : Instruction} (regs : Registers) (hForm : ins.NarrowForm)
    (hWell : ins.WellFormed) :
    (ins.CarryLeak regs → (effect regs ins).low = (narrowEffect regs.low ins).withCarry ∧
      (narrowEffect regs.low ins).flags.c = false) ∧
    (¬ins.CarryLeak regs → (effect regs ins).low = narrowEffect regs.low ins) := by
  cases ins with
  | addSubImmediate sf op s rd rn imm12 shift =>
      obtain rfl : sf = false := hForm
      exact addSub_low regs op s rd rn imm12 shift
  | movWideImmediate sf opc hw imm16 rd =>
      obtain ⟨rfl, -, hHw⟩ := hForm
      have hLt : hw.toNat < 64 := by rcases hHw with rfl | rfl <;> decide
      exact ⟨fun hLeak => hLeak.elim, fun _ => movWide_low regs opc hw imm16 rd hLt⟩
  | hlt imm16 => exact hForm.elim

/-- The 64-bit executor does the 32-bit instruction on the lower halves exactly when no upper
half leaks into the carry. -/
theorem effect_low_iff {ins : Instruction} (regs : Registers) (hForm : ins.NarrowForm)
    (hWell : ins.WellFormed) :
    (effect regs ins).low = narrowEffect regs.low ins ↔ ¬ins.CarryLeak regs := by
  obtain ⟨hLeaks, hAgrees⟩ := effect_low regs hForm hWell
  refine ⟨fun hEq hLeak => ?_, hAgrees⟩
  obtain ⟨hSet, hClear⟩ := hLeaks hLeak
  rw [hEq] at hSet
  have hCarry := congrArg (fun regs => regs.flags.c) hSet
  rw [hClear] at hCarry
  cases hCarry

/-- The carry bit of the outcome, or of the architecture's outcome, is the only
place where the upper halves can show. -/
theorem effect_low_eq_iff {ins : Instruction} {regs other : Registers} (hForm : ins.NarrowForm)
    (hWell : ins.WellFormed) (hSame : narrowEffect regs.low ins = narrowEffect other.low ins) :
    (effect regs ins).low = (effect other ins).low ↔
      (ins.CarryLeak regs ↔ ins.CarryLeak other) := by
  obtain ⟨hLeaks, hAgrees⟩ := effect_low regs hForm hWell
  obtain ⟨hLeaks', hAgrees'⟩ := effect_low other hForm hWell
  have hIff := effect_low_iff regs hForm hWell
  have hIff' := effect_low_iff other hForm hWell
  by_cases hLeak : ins.CarryLeak regs
  · by_cases hLeak' : ins.CarryLeak other
    · refine iff_of_true ?_ (iff_of_true hLeak hLeak')
      rw [(hLeaks hLeak).1, (hLeaks' hLeak').1, hSame]
    · refine iff_of_false ?_ (fun h => hLeak' (h.mp hLeak))
      rw [hAgrees' hLeak', ← hSame, hIff]
      exact not_not_intro hLeak
  · by_cases hLeak' : ins.CarryLeak other
    · refine iff_of_false ?_ (fun h => hLeak (h.mpr hLeak'))
      rw [hAgrees hLeak, hSame, eq_comm, hIff']
      exact not_not_intro hLeak'
    · refine iff_of_true ?_ (iff_of_false hLeak hLeak')
      rw [hAgrees hLeak, hAgrees' hLeak', hSame]

/-- The states agree on all that the 32-bit form reads: the low halves, and the
flags where it keeps them. -/
def AgreeLow (ins : Instruction) (regs other : Registers) : Prop :=
  regs.low.w = other.low.w ∧ (ins.setsFlags = false → regs.low.flags = other.low.flags)

/-- Registers with the same lower halves have the same 32-bit effect. The old flags count only
where the instruction sets none. -/
theorem narrowEffect_congr {ins : Instruction} {regs other : Registers}
    (h : AgreeLow ins regs other) (hForm : ins.NarrowForm) :
    narrowEffect regs.low ins = narrowEffect other.low ins := by
  obtain ⟨hW, hFlags⟩ := h
  cases ins with
  | addSubImmediate sf op s rd rn imm12 shift =>
      cases s with
      | false =>
          have hLow : regs.low = other.low := congrArg₂ NarrowRegisters.mk hW (hFlags rfl)
          rw [hLow]
      | true =>
          have hValue : regs.low.value rn = other.low.value rn := by
            rw [NarrowRegisters.value, NarrowRegisters.value, hW]
          simp only [narrowEffect, if_true, hValue, NarrowRegisters.put]
          split <;> simp [hW]
  | movWideImmediate sf opc hw imm16 rd =>
      have hLow : regs.low = other.low := congrArg₂ NarrowRegisters.mk hW (hFlags rfl)
      rw [hLow]
  | hlt imm16 => exact hForm.elim

theorem movWideResult_narrow {opc : UInt8} (hRange : opc ≤ 3) (hAllocated : opc ≠ 0b01) (hw : UInt8)
    (imm16 : UInt16) (existing : UInt64) :
    ∃ word, movWideResult false opc hw imm16 existing = some (word &&& 0xFFFFFFFF) := by
  have hThree : opc = 0b10 ∨ opc = 0b11 ∨ opc = 0b00 := by
    have hNat : opc.toNat ≤ 3 := hRange
    rw [Ne, ← UInt8.toNat_inj] at hAllocated
    rw [← UInt8.toNat_inj, ← UInt8.toNat_inj, ← UInt8.toNat_inj]
    change opc.toNat ≠ 1 at hAllocated
    change opc.toNat = 2 ∨ opc.toNat = 3 ∨ opc.toNat = 0
    omega
  rcases hThree with rfl | rfl | rfl
  · exact ⟨_, rfl⟩
  · exact ⟨_, rfl⟩
  · exact ⟨_, rfl⟩

/-- A narrow form leaves a general register with nothing in its upper half. -/
theorem effect_value_narrow (regs : Registers) {r : UInt8} {inst : Instruction}
    (hWell : inst.WellFormed) (hWrites : inst.writes r = true)
    (hNarrow : inst.isNarrow = true) (hGeneral : r ≤ 30) :
    ((effect regs inst).value r).toNat < 2 ^ 32 := by
  have hPut (word : UInt64) : ((regs.put r (word &&& 0xFFFFFFFF)).value r).toNat < 2 ^ 32 := by
    rw [Registers.value_put_self regs hGeneral]
    exact narrow_toNat_lt word
  cases inst with
  | addSubImmediate sf op s rd rn imm12 shift =>
      obtain rfl : sf = false := by simpa [Instruction.isNarrow] using hNarrow
      obtain rfl : rd = r := by simpa [Instruction.writes] using hWrites
      cases s <;> exact hPut _
  | movWideImmediate sf opc hw imm16 rd =>
      obtain rfl : sf = false := by simpa [Instruction.isNarrow] using hNarrow
      obtain ⟨rfl, hOpc⟩ : rd = r ∧ opc ≠ 0b01 := by simpa [Instruction.writes] using hWrites
      obtain ⟨word, hResult⟩ := movWideResult_narrow hWell.1 hOpc hw imm16 (regs.value rd)
      simp only [effect, hResult]
      exact hPut word
  | hlt imm16 => cases hWrites

theorem effect_zeroExtends {ins : Instruction} (regs : Registers) (hForm : ins.NarrowForm)
    (hWell : ins.WellFormed) {rd : UInt8} (hRd : ins.rd? = some rd) (hGeneral : rd ≤ 30) :
    ((effect regs ins).value rd).toNat < 2 ^ 32 := by
  cases ins with
  | addSubImmediate sf op s d rn imm12 shift =>
      obtain rfl : sf = false := hForm
      obtain rfl : d = rd := Option.some.inj hRd
      exact effect_value_narrow regs hWell (beq_self_eq_true d) rfl hGeneral
  | movWideImmediate sf opc hw imm16 d =>
      obtain ⟨rfl, hOpc, -⟩ := hForm
      obtain rfl : d = rd := Option.some.inj hRd
      have hWrites : (Instruction.movWideImmediate false opc hw imm16 d).writes d = true := by
        simpa [Instruction.writes] using hOpc
      exact effect_value_narrow regs hWell hWrites rfl hGeneral
  | hlt imm16 => exact hForm.elim

/-- `execute_instruction` does on the low halves what the architecture does, and
clears the upper half of the destination. -/
def RefinesNarrow (regs : Registers) (mem : Memory) (halted : Bool) (ins : Instruction) : Prop :=
  ∃ after, executeInstruction regs mem halted ins = .ok (.ok (), after, mem, halted) ∧
    after.low = narrowEffect regs.low ins ∧
    ∀ rd, ins.rd? = some rd → rd ≤ 30 → (after.value rd).toNat < 2 ^ 32

theorem executeInstruction_narrow {ins : Instruction} (hForm : ins.NarrowForm)
    (hWell : ins.WellFormed) (regs : Registers) (mem : Memory) (halted : Bool) :
    executeInstruction regs mem halted ins = .ok (.ok (), effect regs ins, mem, halted) := by
  have hHlt : ins.isHlt = false := by
    cases ins with
    | hlt imm16 => exact hForm.elim
    | addSubImmediate => rfl
    | movWideImmediate => rfl
  rw [executeInstruction_eq regs mem halted hWell, hHlt, Bool.or_false]

/-- For one state and one instruction. The carry leak is the only way to miss the refinement. -/
theorem refinesNarrow_iff {ins : Instruction} (hForm : ins.NarrowForm) (hWell : ins.WellFormed)
    (regs : Registers) (mem : Memory) (halted : Bool) :
    RefinesNarrow regs mem halted ins ↔ ¬ins.CarryLeak regs := by
  have hExecute := executeInstruction_narrow hForm hWell regs mem halted
  rw [← effect_low_iff regs hForm hWell]
  constructor
  · rintro ⟨after, hAfter, hLow, -⟩
    rw [hExecute] at hAfter
    cases hAfter
    exact hLow
  · intro hLow
    exact ⟨effect regs ins, hExecute, hLow, fun rd hRd => effect_zeroExtends regs hForm hWell hRd⟩

/-- The 32-bit forms do on the low halves what the architecture does, exactly if
no flag-setting subtraction borrows below a nonzero upper half. Two states that
agree below have outcomes that agree below, unless this happens in just one. -/
theorem narrow_forms_refine (word : UInt32) (ins : Instruction) (hDecode : decode word = .ok ins)
    (hForm : ins.NarrowForm) (mem : Memory) (halted : Bool) :
    (∀ regs, RefinesNarrow regs mem halted ins ↔ ¬ins.CarryLeak regs) ∧
    ∀ regs other, AgreeLow ins regs other →
      ((∃ after after', executeInstruction regs mem halted ins = .ok (.ok (), after, mem, halted) ∧
        executeInstruction other mem halted ins = .ok (.ok (), after', mem, halted) ∧
        after.low = after'.low) ↔ (ins.CarryLeak regs ↔ ins.CarryLeak other)) := by
  have hWell := decode_wellFormed hDecode
  refine ⟨fun regs => refinesNarrow_iff hForm hWell regs mem halted, ?_⟩
  intro regs other hAgree
  have hExecute := executeInstruction_narrow hForm hWell regs mem halted
  have hExecute' := executeInstruction_narrow hForm hWell other mem halted
  rw [← effect_low_eq_iff hForm hWell (narrowEffect_congr hAgree hForm)]
  constructor
  · rintro ⟨after, after', hAfter, hAfter', hLow⟩
    rw [hExecute] at hAfter
    rw [hExecute'] at hAfter'
    cases hAfter
    cases hAfter'
    exact hLow
  · intro hLow
    exact ⟨_, _, hExecute, hExecute', hLow⟩

/-- `SUBS W0, W1, #1`. -/
def subsW0W1 : Instruction := .addSubImmediate false true true 0 1 1 false

/-- In X1 a nonzero upper half stands over an empty lower half. -/
def upperOnly : Registers := Registers.new.put 1 0x100000000

theorem decode_subsW0W1 : decode 0x71000420 = .ok subsW0W1 := by decide +kernel

theorem narrow_forms_refine_subsW0W1 :
    (RefinesNarrow Registers.new (Memory.new 0) false subsW0W1 ∧
      ¬RefinesNarrow upperOnly (Memory.new 0) false subsW0W1) := by
  have hRefines :=
    (narrow_forms_refine 0x71000420 subsW0W1 decode_subsW0W1 rfl (Memory.new 0) false).1
  refine ⟨(hRefines Registers.new).mpr ?_, fun hRefined => (hRefines upperOnly).mp hRefined ?_⟩
  · rintro ⟨-, -, hHigh, -⟩
    exact absurd hHigh (by decide +kernel)
  · refine ⟨rfl, rfl, ?_, ?_⟩ <;> decide +kernel

/-- With equal low halves, `SUBS W0, W1, #1` reports no borrow for one state and
a borrow for the other. The architecture has a borrow in both. -/
theorem subs_carry_depends_on_upper_half :
    decode 0x71000420 = .ok subsW0W1 ∧ subsW0W1.NarrowForm ∧
    AgreeLow subsW0W1 upperOnly Registers.new ∧
    ¬RefinesNarrow upperOnly (Memory.new 0) false subsW0W1 ∧
    (narrowEffect upperOnly.low subsW0W1).flags.c = false ∧
    (∃ after, executeInstruction upperOnly (Memory.new 0) false subsW0W1 =
      .ok (.ok (), after, Memory.new 0, false) ∧ after.c = true) ∧
    (∃ after, executeInstruction Registers.new (Memory.new 0) false subsW0W1 =
      .ok (.ok (), after, Memory.new 0, false) ∧ after.c = false) := by
  have hWell := decode_wellFormed decode_subsW0W1
  have hForm : subsW0W1.NarrowForm := rfl
  have hLow : upperOnly.low = Registers.new.low := by decide +kernel
  refine ⟨decode_subsW0W1, hForm, ⟨congrArg _ hLow, fun _ => congrArg _ hLow⟩, ?_,
    by decide +kernel, ?_, ?_⟩
  · rw [refinesNarrow_iff hForm hWell]
    refine not_not_intro ⟨rfl, rfl, ?_, ?_⟩ <;> decide +kernel
  · exact ⟨_, executeInstruction_narrow hForm hWell _ _ _, by decide +kernel⟩
  · exact ⟨_, executeInstruction_narrow hForm hWell _ _ _, by decide +kernel⟩

end Simulator
