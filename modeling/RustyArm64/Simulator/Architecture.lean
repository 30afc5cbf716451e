import RustyArm64.Base.A64
import RustyArm64.Simulator.RegisterThirtyOne
import RustyArm64.Simulator.NarrowForms
import RustyArm64.Simulator.WideMoves

/-! The simulator next to a machine that follows the architecture: on which words
they agree, and how far runs do. -/
namespace Simulator

open BitVec (Nzcv addSubResult)
open Lanes (setLane)

/-- The registers as the architecture's state. -/
def Registers.arch (regs : Registers) : A64.State :=
  ⟨regs.x.map UInt64.toBitVec, regs.sp.toBitVec, regs.pc.toBitVec, regs.nzcv⟩

/-- The instruction words that stand in a memory. -/
def Memory.code (m : Memory) (pc : BitVec 64) : Option (BitVec 32) :=
  (m.word? pc.toNat).map UInt32.toBitVec

section Fields

variable (word : UInt32)

/-- A field of a word as a number, to compare the slices of the manual with the masks and
shifts of the decoder. -/
theorem extract_toNat (low count : Nat) :
    (word.toBitVec.extractLsb' low count).toNat = word.toNat / 2 ^ low % 2 ^ count := by
  rw [BitVec.extractLsb'_toNat, Nat.shiftRight_eq_div_pow, UInt32.toNat_toBitVec]

theorem getLsbD_toNat (low : Nat) :
    (word.toBitVec.getLsbD low).toNat = word.toNat / 2 ^ low % 2 := by
  rw [BitVec.getLsbD, Nat.toNat_testBit, UInt32.toNat_toBitVec]

theorem extract_eq_iff {low count : Nat} (value : BitVec count) :
    word.toBitVec.extractLsb' low count = value ↔
      word.toNat / 2 ^ low % 2 ^ count = value.toNat := by
  rw [← BitVec.toNat_inj, extract_toNat]

/-- The architecture's classes, in the words of the decoder: bit 23 tells ADD and SUB
from other instructions. -/
theorem isAddSub_iff :
    A64.IsAddSub word.toBitVec ↔ MatchesAddSub word ∧ bits word 23 23 = 0 := by
  have hClass : A64.IsAddSub word.toBitVec ↔ word.toNat / 8388608 % 64 = 34 :=
    extract_eq_iff word _
  have hPattern : MatchesAddSub word ↔ word.toNat / 16777216 % 32 = 17 := Iff.rfl
  have hBit : bits word 23 23 = word.toNat / 8388608 % 2 := rfl
  rw [hClass, hPattern, hBit]
  omega

/-- The two descriptions of the class of wide moves are of the same words. They agree for
moves only: the decoder takes more words for ADD and SUB than there are. -/
theorem isMovWide_iff : A64.IsMovWide word.toBitVec ↔ MatchesMovWide word :=
  extract_eq_iff word _

/-- The moves that the manual reserves: `opc` 01, and the upper halves of a 32-bit register.
The decoder takes them for moves all the same. -/
theorem reservedMove_iff : A64.ReservedMove word.toBitVec ↔
    bits word 30 29 = 0b01 ∨ bits word 31 31 = 0 ∧ 2 ≤ bits word 22 21 := by
  have hOpc : word.toBitVec.extractLsb' 29 2 = 0b01 ↔ bits word 30 29 = 0b01 :=
    extract_eq_iff word _
  have hSf := getLsbD_toNat word 31
  have hHigh := getLsbD_toNat word 22
  have hSize : bits word 31 31 = word.toNat / 2 ^ 31 % 2 := rfl
  have hShift : bits word 22 21 = word.toNat / 2 ^ 21 % 4 := rfl
  rw [A64.ReservedMove, hOpc, hSize, hShift]
  cases hS : word.toBitVec.getLsbD 31 <;> cases hH : word.toBitVec.getLsbD 22 <;>
    simp only [hS, hH, Bool.toNat_true, Bool.toNat_false] at hSf hHigh <;>
    simp <;> omega

/-- How the decoder tests one bit of the word. -/
theorem beq_one_getLsbD (shift : UInt32) (low : Nat) (hShift : shift.toNat = low)
    (hLow : low < 32) : ((word >>> shift) &&& 1 == 1) = word.toBitVec.getLsbD low := by
  have hCut := cut_toNat word shift 1 low low hShift hLow (by
    rw [show low + 1 - low = 1 by omega]
    rfl)
  refine beq_one_of_toNat (hCut.trans ?_)
  rw [getLsbD_toNat, bits, show low + 1 - low = 1 by omega, Nat.pow_one]

/-- The ADD or SUB that the decoder makes of an allocated word. -/
theorem decode_addSub (hClass : A64.IsAddSub word.toBitVec) :
    decode word = .ok (.addSubImmediate (word.toBitVec.getLsbD 31) (word.toBitVec.getLsbD 30)
      (word.toBitVec.getLsbD 29) (.ofNat (word.toBitVec.extractLsb' 0 5).toNat)
      (.ofNat (word.toBitVec.extractLsb' 5 5).toNat)
      (.ofNat (word.toBitVec.extractLsb' 10 12).toNat) (word.toBitVec.getLsbD 22)) := by
  obtain ⟨hMatches, hBit⟩ := (isAddSub_iff word).mp hClass
  have hShift : ((word >>> 22) &&& 0x3 == 1) = word.toBitVec.getLsbD 22 := by
    refine beq_one_of_toNat ((cut_toNat word 22 0x3 23 22 rfl (by decide) rfl).trans ?_)
    have hHigh : bits word 23 23 = word.toNat / 8388608 % 2 := rfl
    rw [getLsbD_toNat]
    show word.toNat / 4194304 % 4 = word.toNat / 4194304 % 2
    omega
  have hRd : (word &&& 0x1F).toUInt8 = .ofNat (word.toBitVec.extractLsb' 0 5).toNat :=
    toUInt8_of_toNat ((low_toNat word 0x1F 4 rfl).trans (extract_toNat word 0 5).symm)
  have hRn : ((word >>> 5) &&& 0x1F).toUInt8 = .ofNat (word.toBitVec.extractLsb' 5 5).toNat :=
    toUInt8_of_toNat
      ((cut_toNat word 5 0x1F 9 5 rfl (by decide) rfl).trans (extract_toNat word 5 5).symm)
  have hImm : ((word >>> 10) &&& 0xFFF).toUInt16 =
      .ofNat (word.toBitVec.extractLsb' 10 12).toNat :=
    toUInt16_of_toNat
      ((cut_toNat word 10 0xFFF 21 10 rfl (by decide) rfl).trans (extract_toNat word 10 12).symm)
  have hArm : addSubArm word = some _ := if_pos ((addSub_test word).mpr hMatches)
  rw [beq_one_getLsbD word 31 31 rfl (by decide), beq_one_getLsbD word 30 30 rfl (by decide),
    beq_one_getLsbD word 29 29 rfl (by decide), hShift, hRd, hRn, hImm] at hArm
  exact decode_of_arm (by simp [arms]) hArm

/-- Every word of the class decodes, with the fields of the manual. Reserved words are not
excluded here. -/
theorem decode_movWide (hClass : A64.IsMovWide word.toBitVec) :
    decode word = .ok (.movWideImmediate (word.toBitVec.getLsbD 31)
      (.ofNat (word.toBitVec.extractLsb' 29 2).toNat)
      (.ofNat ((word.toBitVec.extractLsb' 21 2).toNat * 16))
      (.ofNat (word.toBitVec.extractLsb' 5 16).toNat)
      (.ofNat (word.toBitVec.extractLsb' 0 5).toNat)) := by
  have hRd : (word &&& 0x1F).toUInt8 = .ofNat (word.toBitVec.extractLsb' 0 5).toNat :=
    toUInt8_of_toNat ((low_toNat word 0x1F 4 rfl).trans (extract_toNat word 0 5).symm)
  have hOpc : ((word >>> 29) &&& 0x3).toUInt8 = .ofNat (word.toBitVec.extractLsb' 29 2).toNat :=
    toUInt8_of_toNat
      ((cut_toNat word 29 0x3 30 29 rfl (by decide) rfl).trans (extract_toNat word 29 2).symm)
  have hImm : ((word >>> 5) &&& 0xFFFF).toUInt16 =
      .ofNat (word.toBitVec.extractLsb' 5 16).toNat :=
    toUInt16_of_toNat
      ((cut_toNat word 5 0xFFFF 20 5 rfl (by decide) rfl).trans (extract_toNat word 5 16).symm)
  have hHw : (((word >>> 21) &&& 0x3) * 16).toUInt8 =
      .ofNat ((word.toBitVec.extractLsb' 21 2).toNat * 16) := by
    have hCut : ((word >>> 21) &&& 0x3).toNat = (word.toBitVec.extractLsb' 21 2).toNat :=
      (cut_toNat word 21 0x3 22 21 rfl (by decide) rfl).trans (extract_toNat word 21 2).symm
    have hLt := (word.toBitVec.extractLsb' 21 2).isLt
    refine toUInt8_of_toNat ?_
    rw [UInt32.toNat_mul, hCut, show (16 : UInt32).toNat = 16 from rfl]
    omega
  have hArm : movWideArm word = some _ :=
    if_pos ((movWide_test word).mpr ((isMovWide_iff word).mp hClass))
  rw [beq_one_getLsbD word 31 31 rfl (by decide), hOpc, hHw, hImm, hRd] at hArm
  exact decode_of_arm (by simp [arms]) hArm

end Fields

section State

variable (regs : Registers) (index : BitVec 5)

theorem toNat_index : (UInt8.ofNat index.toNat).toNat = index.toNat := by
  have hLt := index.isLt
  rw [UInt8.toNat_ofNat']
  omega

/-- A five-bit field is 31 for the decoder exactly when it is for the reference. -/
theorem index_eq_thirtyOne_iff : UInt8.ofNat index.toNat = 31 ↔ index = 31 := by
  rw [← UInt8.toNat_inj, toNat_index, ← BitVec.toNat_inj]
  rfl

/-- The reference reads a general-purpose register where the simulator does, and 0 at 31. -/
theorem arch_general :
    regs.arch.general index = (regs.value (.ofNat index.toNat)).toBitVec := by
  have hIndex := toNat_index index
  unfold A64.State.general Registers.value
  by_cases h : index.toNat < 31
  · rw [dif_pos h, dif_pos (by omega)]
    simp only [Registers.arch, Vector.getElem_map, hIndex]
  · rw [dif_neg h, dif_neg (by omega)]
    rfl

/-- A write to index 31 is lost on both sides. This is the zero register: the form of ADD
and SUB in which 31 is SP has `setGeneralOrSp`. -/
theorem arch_put (word : UInt64) :
    (regs.put (.ofNat index.toNat) word).arch = regs.arch.setGeneral index word.toBitVec := by
  have hIndex := toNat_index index
  unfold A64.State.setGeneral Registers.put
  by_cases h : index.toNat < 31
  · rw [dif_pos h, dif_pos (by omega)]
    simp only [Registers.arch, Registers.nzcv, Vector.map_set, hIndex]
  · rw [dif_neg h, dif_neg (by omega)]

theorem arch_setFlags (n z c v : Bool) :
    (regs.setFlags n z c v).arch = { regs.arch with flags := ⟨n, z, c, v⟩ } := rfl

end State

section AddSub

variable (regs : Registers) (sf op s sh : Bool) (imm12 : BitVec 12) (rn rd : BitVec 5)

/-- The shifted immediate is the same at both widths. It never has more than 24 bits. -/
theorem operand_arch {w : Nat} (hWidth : 32 ≤ w) :
    imm12.setWidth w <<< (if sh then 12 else 0) =
      (immOperand (.ofNat imm12.toNat) sh).toBitVec.setWidth w := by
  have hImm := imm12.isLt
  have hPow : 2 ^ 32 ≤ 2 ^ w := Nat.pow_le_pow_right (by decide) hWidth
  have hNat : (UInt16.ofNat imm12.toNat).toNat = imm12.toNat := by
    rw [UInt16.toNat_ofNat']
    omega
  apply BitVec.eq_of_toNat_eq
  rw [BitVec.toNat_shiftLeft, BitVec.toNat_setWidth, BitVec.toNat_setWidth, UInt64.toNat_toBitVec,
    immOperand_toNat, immediate, hNat, Nat.shiftLeft_eq,
    Nat.mod_eq_of_lt (show imm12.toNat < 2 ^ w by omega)]
  cases sh with
  | false => rfl
  | true => rfl

/-- The code's outcome in the reference machine's terms. -/
theorem addSubOutcome_arch (src operand : UInt64) (hOperand : operand.toNat < 2 ^ 32) :
    let outcome := addSubOutcome sf op src operand
    let out := addSubResult op (src.toBitVec.setWidth (if sf then 64 else 32))
      (operand.toBitVec.setWidth (if sf then 64 else 32))
    outcome.1.toBitVec = out.1.setWidth 64 ∧
      (¬BorrowHidden sf op src operand → outcome.2 = out.2) := by
  intro outcome out
  obtain ⟨hResult, hFlags⟩ := addSubOutcome_eq sf op src operand
  refine ⟨BitVec.eq_of_toNat_eq ?_, fun hShown => ?_⟩
  · exact hResult.trans (BitVec.toNat_setWidth_of_le (operandSize_le sf)).symm
  · rw [(addSubOutcome_carry sf op src operand hOperand).mpr hShown] at hFlags
    exact hFlags

theorem setGeneralOrSp_of_ne {state : A64.State} {index : BitVec 5} (h : index ≠ 31)
    (value : BitVec 64) : state.setGeneralOrSp index value = state.setGeneral index value :=
  if_neg h

/-- An ADD or SUB that leaves the stack pointer out, and that does not leak a carry
into 32-bit flags, is the architecture's. -/
theorem effect_addSub (hRn : rn ≠ 31) (hRd : rd = 31 → s = true)
    (hLeak : sf = false → ¬(Instruction.addSubImmediate sf op s (.ofNat rd.toNat)
      (.ofNat rn.toNat) (.ofNat imm12.toNat) sh).CarryLeak regs) :
    A64.addSub (if sf then 64 else 32) op s sh imm12 rn rd regs.arch =
      (effect regs (.addSubImmediate sf op s (.ofNat rd.toNat) (.ofNat rn.toNat)
        (.ofNat imm12.toNat) sh)).arch := by
  have hWidth : 32 ≤ if sf then 64 else 32 := by cases sf <;> decide
  have hSource : regs.arch.generalOrSp rn = (regs.value (.ofNat rn.toNat)).toBitVec := by
    rw [A64.State.generalOrSp, if_neg hRn, arch_general]
  obtain ⟨hResult, hFlags⟩ := addSubOutcome_arch sf op (regs.value (.ofNat rn.toNat))
    (immOperand (.ofNat imm12.toNat) sh) (immOperand_lt _ sh)
  simp only [A64.addSub, hSource, operand_arch sh imm12 hWidth, effect]
  rw [← hResult]
  cases s with
  | false =>
      have hRd' : rd ≠ 31 := fun h => Bool.false_ne_true (hRd h)
      rw [if_neg Bool.false_ne_true, if_neg Bool.false_ne_true, setGeneralOrSp_of_ne hRd', arch_put]
      rfl
  | true =>
      have hShown := hFlags fun h => hLeak h.1 ⟨h.2.1, rfl, h.2.2⟩
      rw [if_pos rfl, if_pos rfl, arch_setFlags, arch_put, ← hShown]
      rfl

end AddSub

section MovWide

variable (regs : Registers) (sf : Bool) (opc hw : BitVec 2) (imm16 : BitVec 16) (rd : BitVec 5)

/-- The immediate of a decoded wide move, in its place. -/
def shiftedImm : UInt64 :=
  (UInt16.ofNat imm16.toNat).toUInt64 <<< (UInt8.ofNat (hw.toNat * 16)).toUInt64

theorem hw_eq_lane : UInt8.ofNat (hw.toNat * 16) = LaneMove.hw ⟨hw.toFin, ⟨imm16⟩⟩ := by
  rw [LaneMove.hw, Nat.mul_comm]
  rfl

theorem toBitVec_shiftLeft_lane (a : UInt64) :
    (a <<< (UInt8.ofNat (hw.toNat * 16)).toUInt64).toBitVec = a.toBitVec <<< (16 * hw.toNat) := by
  rw [hw_eq_lane hw 0, toBitVec_shiftLeft_hw]
  rfl

/-- The shifted immediate of a move; no shift amount of a decoded word loses a bit. -/
theorem shiftedImm_toBitVec :
    (shiftedImm hw imm16).toBitVec = imm16.setWidth 64 <<< (16 * hw.toNat) := by
  have hImm : (UInt16.ofNat imm16.toNat).toUInt64.toBitVec = imm16.setWidth 64 := by
    have hLt := imm16.isLt
    apply BitVec.eq_of_toNat_eq
    rw [UInt64.toNat_toBitVec, UInt16.toNat_toUInt64, UInt16.toNat_ofNat', BitVec.toNat_setWidth]
    omega
  rw [shiftedImm, toBitVec_shiftLeft_lane, hImm]

/-- A shifted immediate is a word with one lane set, which is MOVZ. -/
theorem shiftedImm_eq_setLane : (shiftedImm hw imm16).toBitVec = setLane 0 hw.toNat imm16 := by
  rw [shiftedImm_toBitVec, setLane]
  simp

/-- The mask of MOVK clears the lane that the immediate then fills, and no other. -/
theorem moved_eq_setLane (existing : UInt64) :
    ((existing &&& ~~~(0xFFFF <<< (UInt8.ofNat (hw.toNat * 16)).toUInt64)) |||
      shiftedImm hw imm16).toBitVec = setLane existing.toBitVec hw.toNat imm16 := by
  have hMask : (BitVec.allOnes 16).setWidth 64 = (0xFFFF : UInt64).toBitVec := by decide
  rw [UInt64.toBitVec_or, UInt64.toBitVec_and, UInt64.toBitVec_not, toBitVec_shiftLeft_lane,
    shiftedImm_toBitVec, setLane, hMask]

/-- What the code keeps of a value, at either width. -/
theorem narrowed_toBitVec (value : UInt64) :
    (if sf then value else value &&& 0xFFFFFFFF).toBitVec =
      (value.toBitVec.setWidth (if sf then 64 else 32)).setWidth 64 :=
  BitVec.eq_of_toNat_eq ((narrowed_toNat sf value).trans
    (BitVec.toNat_setWidth_of_le (operandSize_le sf)).symm)

/-- The three moves do what the manual says. A reserved `opc` is excluded, for which the
executor has an error of its own. -/
theorem movWideResult_arch (hOpc : opc ≠ 0b01) (existing : UInt64) :
    ∃ value, movWideResult sf (.ofNat opc.toNat) (.ofNat (hw.toNat * 16)) (.ofNat imm16.toNat)
      existing = some value ∧
      value.toBitVec = (A64.movWideResult opc hw imm16
        (existing.toBitVec.setWidth (if sf then 64 else 32))).setWidth 64 := by
  have hWidth : (if sf then 64 else 32) ≤ 64 := by cases sf <;> decide
  have hZero : (0 : BitVec 64).setWidth (if sf then 64 else 32) = 0 := BitVec.setWidth_zero ..
  have hCases : opc = 0b00 ∨ opc = 0b10 ∨ opc = 0b11 := by
    revert opc
    decide
  rcases hCases with rfl | rfl | rfl
  · refine ⟨_, rfl, (narrowed_toBitVec sf (~~~shiftedImm hw imm16)).trans ?_⟩
    rw [UInt64.toBitVec_not, BitVec.setWidth_not hWidth, shiftedImm_eq_setLane,
      Lanes.setWidth_setLane hWidth, hZero]
    rfl
  · refine ⟨_, rfl, (narrowed_toBitVec sf (shiftedImm hw imm16)).trans ?_⟩
    rw [shiftedImm_eq_setLane, Lanes.setWidth_setLane hWidth, hZero]
    rfl
  · refine ⟨_, rfl, (narrowed_toBitVec sf _).trans ?_⟩
    rw [← shiftedImm, moved_eq_setLane, Lanes.setWidth_setLane hWidth]
    rfl

/-- Every allocated wide move is the architecture's. -/
theorem effect_movWide (hOpc : opc ≠ 0b01) :
    A64.movWide (if sf then 64 else 32) opc hw imm16 rd regs.arch =
      (effect regs (.movWideImmediate sf (.ofNat opc.toNat) (.ofNat (hw.toNat * 16))
        (.ofNat imm16.toNat) (.ofNat rd.toNat))).arch := by
  obtain ⟨value, hResult, hValue⟩ :=
    movWideResult_arch sf opc hw imm16 hOpc (regs.value (.ofNat rd.toNat))
  simp only [A64.movWide, effect, hResult, arch_general, arch_put, hValue]

end MovWide

/-- The instruction names the stack pointer, or leaks a carry into 32-bit flags. -/
def Instruction.Departs (regs : Registers) : Instruction → Prop
  | .addSubImmediate sf op s rd rn imm12 shift =>
    rn = 31 ∨ (rd = 31 ∧ s = false) ∨
      sf = false ∧ (Instruction.addSubImmediate sf op s rd rn imm12 shift).CarryLeak regs
  | _ => False

section Word

variable {word : UInt32}

/-- The words that the decoder takes and the manual does not, as one set of the words and as
the difference of two classes. -/
theorem unallocated_iff : Unallocated word ↔
    (MatchesAddSub word ∧ ¬A64.IsAddSub word.toBitVec) ∨
      (A64.IsMovWide word.toBitVec ∧ A64.ReservedMove word.toBitVec) := by
  have hBit : bits word 23 23 = 0 ∨ bits word 23 23 = 1 := Nat.mod_two_eq_zero_or_one _
  rw [Unallocated, isAddSub_iff, isMovWide_iff, reservedMove_iff]
  by_cases hAddSub : MatchesAddSub word <;> by_cases hMovWide : MatchesMovWide word <;>
    simp only [hAddSub, hMovWide, true_and, false_and, false_or, or_false] <;> omega

/-- The reference covers two classes of instructions and is silent on any other word. This
does not say that such a word is unallocated. -/
theorem execute_eq_none {state : A64.State} (hAddSub : ¬A64.IsAddSub word.toBitVec)
    (hMovWide : ¬(A64.IsMovWide word.toBitVec ∧ ¬A64.ReservedMove word.toBitVec)) :
    A64.execute word.toBitVec state = none := by
  rw [A64.execute, if_neg hAddSub, if_neg hMovWide]

/-- The architecture has no instruction for an unallocated word. -/
theorem execute_of_unallocated (h : Unallocated word) (state : A64.State) :
    A64.execute word.toBitVec state = none := by
  have hDisjoint := (patterns_disjoint word).1
  rcases unallocated_iff.mp h with ⟨hMatches, hNot⟩ | ⟨hMovWide, hReserved⟩
  · refine execute_eq_none hNot fun hMove => hDisjoint ⟨hMatches, ?_⟩
    exact (isMovWide_iff word).mp hMove.1
  · refine execute_eq_none (fun hClass => hDisjoint ?_) fun hMove => hMove.2 hReserved
    exact ⟨((isAddSub_iff word).mp hClass).1, (isMovWide_iff word).mp hMovWide⟩

/-- The words that stop a run are undefined for the reference machine. -/
theorem execute_of_stops {m : Memory} {a : Nat} (hWord : m.word? a = some word)
    (hStop : (m.site a).stops = true) (state : A64.State) :
    A64.execute word.toBitVec state = none := by
  have hNeither : ¬MatchesAddSub word ∧ ¬MatchesMovWide word := by
    obtain ⟨-, hFirst, hSecond⟩ := patterns_disjoint word
    rcases Cpu.stop_cases hStop with ⟨hNone, -⟩ | ⟨other, e, hOther, hDecode, -⟩ |
      ⟨other, imm16, hOther, hDecode, -⟩
    · rw [hWord] at hNone
      cases hNone
    · obtain rfl : word = other := Option.some.inj (hWord.symm.trans hOther)
      rw [decode_error hDecode] at hDecode
      obtain ⟨hAddSub, hMovWide, -⟩ := (decode_unknownOpcode word).mp hDecode
      exact ⟨hAddSub, hMovWide⟩
    · obtain rfl : word = other := Option.some.inj (hWord.symm.trans hOther)
      have hPattern := (hlt_test word).mp ((decode_hlt_iff word imm16).mp hDecode).1
      exact ⟨fun h => hFirst ⟨h, hPattern⟩, fun h => hSecond ⟨h, hPattern⟩⟩
  refine execute_eq_none (fun hClass => hNeither.1 ((isAddSub_iff word).mp hClass).1) ?_
  exact fun hMove => hNeither.2 ((isMovWide_iff word).mp hMove.1)

/-- On an allocated word that does not depart, decoder and executor do together what
the architecture does. -/
theorem execute_of_decode {inst : Instruction} (hDecode : decode word = .ok inst)
    (hHlt : inst.isHlt = false) (hAllocated : ¬Unallocated word) {regs : Registers}
    (hDeparts : ¬inst.Departs regs) :
    A64.execute word.toBitVec regs.arch = some (effect regs inst).arch := by
  obtain ⟨hNoAddSub, hNoMove⟩ := not_or.mp (mt unallocated_iff.mpr hAllocated)
  by_cases hAddSub : A64.IsAddSub word.toBitVec
  · obtain rfl := Except.ok.inj ((decode_addSub word hAddSub).symm.trans hDecode)
    obtain ⟨hRn, hRd, hLeak⟩ : _ ∧ _ ∧ _ := by
      rw [Instruction.Departs, not_or, not_or] at hDeparts
      exact hDeparts
    rw [index_eq_thirtyOne_iff] at hRn hRd
    rw [A64.execute, if_pos hAddSub, A64.width]
    refine congrArg some (effect_addSub regs _ _ _ _ _ _ _ hRn (fun h => ?_) fun h hBorrow => ?_)
    · exact Bool.not_eq_false _ ▸ fun hFlags => hRd ⟨h, hFlags⟩
    · exact hLeak ⟨h, hBorrow⟩
  · by_cases hMovWide : A64.IsMovWide word.toBitVec
    · obtain rfl := Except.ok.inj ((decode_movWide word hMovWide).symm.trans hDecode)
      have hReserved : ¬A64.ReservedMove word.toBitVec := fun h => hNoMove ⟨hMovWide, h⟩
      rw [A64.execute, if_neg hAddSub, if_pos ⟨hMovWide, hReserved⟩, A64.width]
      exact congrArg some (effect_movWide regs _ _ _ _ _ (not_or.mp hReserved).1)
    · have hNoMatch : ¬MatchesAddSub word := fun h => hNoAddSub ⟨h, hAddSub⟩
      have hNoWide : ¬MatchesMovWide word := mt (isMovWide_iff word).mpr hMovWide
      by_cases hPattern : MatchesHlt word
      · have hArm : hltArm word = some _ := if_pos ((hlt_test word).mpr hPattern)
        have hEq := (decode_of_arm (by simp [arms]) hArm).symm.trans hDecode
        rw [← Except.ok.inj hEq] at hHlt
        cases hHlt
      · rw [(decode_unknownOpcode word).mpr ⟨hNoMatch, hNoWide, hPattern⟩] at hDecode
        cases hDecode

end Word

end Simulator
