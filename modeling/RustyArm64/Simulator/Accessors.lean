import Mathlib.Data.List.TakeDrop
import RustyArm64.Base.LastWriter
import RustyArm64.Simulator.Cpu

/-! The register accessors of a CPU as a map of cells. A sequence of writes leaves in
each cell what the last write to it has put there, and PSTATE keeps four bits. -/
namespace Simulator

inductive RegisterWrite where
  | writeReg (index value : UInt64)
  | writeSp (value : UInt64)
  | writePc (value : UInt64)
  | writePstate (value : UInt64)
  | setFlags (n z c v : Bool)
  deriving DecidableEq

/-- What an accessor reads or writes. -/
inductive Cell where
  | x (index : UInt64)
  | sp
  | pc
  | pstate
  deriving DecidableEq

namespace RegisterWrite

def cell : RegisterWrite → Cell
  | writeReg index _ => .x index
  | writeSp _ => .sp
  | writePc _ => .pc
  | writePstate _ => .pstate
  | setFlags .. => .pstate

/-- The flags in the bits of PSTATE. -/
def packFlags (n z c v : Bool) : UInt64 :=
  (if n then (1 : UInt64) <<< 31 else 0) ||| (if z then (1 : UInt64) <<< 30 else 0) |||
    (if c then (1 : UInt64) <<< 29 else 0) ||| (if v then (1 : UInt64) <<< 28 else 0)

/-- What the cell reads after the write. -/
def value : RegisterWrite → UInt64
  | writeReg _ value => value
  | writeSp value => value
  | writePc value => value
  | writePstate value => value &&& 0xF0000000
  | setFlags n z c v => packFlags n z c v

/-- The index assertion holds. -/
def InRange : RegisterWrite → Prop
  | writeReg index _ => index ≤ 30
  | _ => True

end RegisterWrite

namespace Cpu

def write (cpu : Cpu) : RegisterWrite → Outcome Cpu
  | .writeReg index value => cpu.writeReg index value
  | .writeSp value => return cpu.writeSp value
  | .writePc value => return cpu.writePc value
  | .writePstate value => return cpu.writePstate value
  | .setFlags n z c v => return cpu.setFlags n z c v

/-- One write after the other, up to the first panic. -/
def writeAll (cpu : Cpu) : List RegisterWrite → Outcome Cpu
  | [] => return cpu
  | call :: rest => do (← cpu.write call).writeAll rest

def readCell (cpu : Cpu) : Cell → Outcome UInt64
  | .x index => cpu.readReg index
  | .sp => return cpu.readSp
  | .pc => return cpu.readPc
  | .pstate => return cpu.readPstate

section Pstate

/-- One bit under its mask. `write_pstate` takes a flag out of its bit and `read_pstate` puts
it back, and together they keep this bit and no other. -/
theorem and_shifted_one (value shift : UInt64) (k : Nat) (hK : k < 64) (hShift : shift.toNat = k)
    (hOne : ((1 : UInt64) <<< shift).toBitVec = BitVec.twoPow 64 k) :
    (if (value >>> shift) &&& 1 == 1 then (1 : UInt64) <<< shift else 0) =
      value &&& ((1 : UInt64) <<< shift) := by
  have hNat : ((value >>> shift) &&& 1).toNat = (value.toBitVec.getLsbD k).toNat := by
    rw [BitVec.getLsbD, Nat.toNat_testBit, UInt64.toNat_toBitVec, ← hShift]
    have hSign := signBit_toNat value shift
    have hMod : shift.toNat % 64 = shift.toNat := Nat.mod_eq_of_lt (hShift.trans_lt hK)
    rw [hMod] at hSign
    exact hSign
  apply UInt64.toBitVec_inj.mp
  rw [UInt64.toBitVec_and, hOne, BitVec.and_twoPow]
  cases hBit : value.toBitVec.getLsbD k with
  | true =>
      rw [hBit] at hNat
      rw [if_pos (beq_iff_eq.mpr (UInt64.toNat_inj.mp hNat)), if_pos rfl, hOne]
  | false =>
      rw [hBit] at hNat
      have hZero : (value >>> shift) &&& 1 = 0 := UInt64.toNat_inj.mp hNat
      rw [hZero, if_neg (by decide), if_neg Bool.false_ne_true]
      rfl

/-- Only bits 31 to 28 of a written PSTATE can be read back. -/
theorem readPstate_writePstate (cpu : Cpu) (value : UInt64) :
    (cpu.writePstate value).readPstate = value &&& 0xF0000000 := by
  have hMask : (0xF0000000 : UInt64) =
      (1 : UInt64) <<< 31 ||| (1 : UInt64) <<< 30 ||| (1 : UInt64) <<< 29 ||| (1 : UInt64) <<< 28 :=
    rfl
  have hN := and_shifted_one value 31 31 (by decide) rfl (by decide)
  have hZ := and_shifted_one value 30 30 (by decide) rfl (by decide)
  have hC := and_shifted_one value 29 29 (by decide) rfl (by decide)
  have hV := and_shifted_one value 28 28 (by decide) rfl (by decide)
  have hRead : (cpu.writePstate value).readPstate =
      RegisterWrite.packFlags ((value >>> 31) &&& 1 == 1) ((value >>> 30) &&& 1 == 1)
        ((value >>> 29) &&& 1 == 1) ((value >>> 28) &&& 1 == 1) := rfl
  rw [hRead, RegisterWrite.packFlags, hN, hZ, hC, hV, hMask]
  apply UInt64.toBitVec_inj.mp
  simp only [UInt64.toBitVec_and, UInt64.toBitVec_or, BitVec.and_or_distrib_left]

end Pstate

/-- The CPU after a write that does not panic. -/
def written (cpu : Cpu) : RegisterWrite → Cpu
  | .writeReg index value =>
    if index ≤ 30 then { cpu with regs := cpu.regs.put index.toUInt8 value } else cpu
  | .writeSp value => cpu.writeSp value
  | .writePc value => cpu.writePc value
  | .writePstate value => cpu.writePstate value
  | .setFlags n z c v => cpu.setFlags n z c v

/-- What a read of a cell finds, with an index in range. -/
def cellValue (cpu : Cpu) : Cell → UInt64
  | .x index => cpu.regs.value index.toUInt8
  | .sp => cpu.readSp
  | .pc => cpu.readPc
  | .pstate => cpu.readPstate

theorem toNat_index_le {index : UInt64} (h : index ≤ 30) : index.toUInt8.toNat = index.toNat := by
  have hNat : index.toNat ≤ 30 := h
  rw [UInt64.toNat_toUInt8]
  omega

theorem toUInt8_le_thirty {index : UInt64} (h : index ≤ 30) : index.toUInt8 ≤ 30 := by
  rw [UInt8.le_iff_toNat_le, toNat_index_le h]
  exact h

/-- A write whose index is in range does not panic. SP, PC and PSTATE take every value. -/
theorem write_eq {call : RegisterWrite} (cpu : Cpu) (h : call.InRange) :
    cpu.write call = .ok (cpu.written call) := by
  cases call with
  | writeReg index value =>
      have hThirty : index ≤ 30 := h
      have hLe := Registers.le_of_le_thirty (toUInt8_le_thirty hThirty)
      have hIndex : assertIndex index = .ok index.toUInt8 := if_pos hThirty
      rw [write, writeReg, hIndex, Outcome.ok_bind, Registers.write_eq hLe, Outcome.ok_bind,
        written, if_pos hThirty]
      rfl
  | writeSp value => rfl
  | writePc value => rfl
  | writePstate value => rfl
  | setFlags n z c v => rfl

/-- The assertion on the index panics before anything is written, and names the index. -/
theorem write_out_of_range {index : UInt64} (cpu : Cpu) (value : UInt64) (h : 30 < index) :
    cpu.write (.writeReg index value) = .error (.registerIndex index.toNat) := by
  have hIndex : assertIndex index = .error (.registerIndex index.toNat) :=
    if_neg (UInt64.not_le.mpr h)
  rw [write, writeReg, hIndex]
  rfl

/-- A read of a cell in range returns. A register index above 30 panics, and is no cell of
the map. -/
theorem readCell_eq (cpu : Cpu) {cell : Cell} (h : ∀ index, cell = .x index → index ≤ 30) :
    cpu.readCell cell = .ok (cpu.cellValue cell) := by
  cases cell with
  | x index =>
      have hRange := h index rfl
      have hIndex : assertIndex index = .ok index.toUInt8 := if_pos hRange
      rw [readCell, readReg, hIndex, Outcome.ok_bind,
        Registers.read_eq (Registers.le_of_le_thirty (toUInt8_le_thirty hRange)), cellValue]
  | sp => rfl
  | pc => rfl
  | pstate => rfl

/-- A cell holds what was written to it, PSTATE only the four flags of that. -/
theorem cellValue_written_self (cpu : Cpu) {call : RegisterWrite} (h : call.InRange) :
    (cpu.written call).cellValue call.cell = call.value := by
  cases call with
  | writeReg index value =>
      have hThirty : index ≤ 30 := h
      rw [written, if_pos hThirty]
      exact Registers.value_put_self cpu.regs (toUInt8_le_thirty hThirty) value
  | writeSp value => rfl
  | writePc value => rfl
  | writePstate value => exact readPstate_writePstate cpu value
  | setFlags n z c v => rfl

/-- A write to one cell does not show in another. PSTATE and `set_flags` share theirs, so
nothing is said about the one after the other. -/
theorem cellValue_written_of_ne (cpu : Cpu) {call : RegisterWrite} {cell : Cell}
    (hRange : ∀ index, cell = .x index → index ≤ 30) (hNe : call.cell ≠ cell) :
    (cpu.written call).cellValue cell = cpu.cellValue cell := by
  cases call with
  | writeReg index value =>
      by_cases h : index ≤ 30
      · rw [written, if_pos h]
        cases cell with
        | x other =>
            refine Registers.value_put_of_ne cpu.regs (fun hEq => hNe ?_) value
            have hNat := congrArg UInt8.toNat hEq
            rw [toNat_index_le h, toNat_index_le (hRange other rfl)] at hNat
            exact congrArg Cell.x (UInt64.toNat_inj.mp hNat)
        | sp => exact Registers.put_sp ..
        | pc => exact Registers.put_pc ..
        | pstate =>
            unfold Registers.put
            split <;> rfl
      · rw [written, if_neg h]
  | writeSp value => cases cell <;> first | rfl | exact (hNe rfl).elim
  | writePc value => cases cell <;> first | rfl | exact (hNe rfl).elim
  | writePstate value => cases cell <;> first | rfl | exact (hNe rfl).elim
  | setFlags n z c v => cases cell <;> first | rfl | exact (hNe rfl).elim

/-- No accessor touches the memory or the halt flag. -/
theorem written_keeps (cpu : Cpu) (call : RegisterWrite) :
    (cpu.written call).mem = cpu.mem ∧ (cpu.written call).halted = cpu.halted := by
  cases call with
  | writeReg index value =>
      by_cases h : index ≤ 30
      · rw [written, if_pos h]
        exact ⟨rfl, rfl⟩
      · rw [written, if_neg h]
        exact ⟨rfl, rfl⟩
  | writeSp value => exact ⟨rfl, rfl⟩
  | writePc value => exact ⟨rfl, rfl⟩
  | writePstate value => exact ⟨rfl, rfl⟩
  | setFlags n z c v => exact ⟨rfl, rfl⟩

/-- Writes in range are all made, in their order. -/
theorem writeAll_eq {calls : List RegisterWrite} (hRange : ∀ call ∈ calls, call.InRange)
    (cpu : Cpu) : cpu.writeAll calls = .ok (calls.foldl written cpu) := by
  induction calls generalizing cpu with
  | nil => rfl
  | cons call rest ih =>
      rw [writeAll, write_eq cpu (hRange call List.mem_cons_self), Outcome.ok_bind, List.foldl_cons]
      exact ih (fun other hOther => hRange other (List.mem_cons_of_mem _ hOther)) _

/-- The writes up to the first index out of range are made before it panics. What they
leave is lost with the panic. -/
theorem writeAll_append {before : List RegisterWrite} (hRange : ∀ call ∈ before, call.InRange)
    (rest : List RegisterWrite) (cpu : Cpu) :
    cpu.writeAll (before ++ rest) = (before.foldl written cpu).writeAll rest := by
  induction before generalizing cpu with
  | nil => rfl
  | cons call tail ih =>
      rw [List.cons_append, writeAll, write_eq cpu (hRange call List.mem_cons_self),
        Outcome.ok_bind, List.foldl_cons]
      exact ih (fun other hOther => hRange other (List.mem_cons_of_mem _ hOther)) _

/-- The same for a list of writes. -/
theorem foldl_written_keeps (calls : List RegisterWrite) (cpu : Cpu) :
    (calls.foldl written cpu).mem = cpu.mem ∧ (calls.foldl written cpu).halted = cpu.halted := by
  induction calls generalizing cpu with
  | nil => exact ⟨rfl, rfl⟩
  | cons call rest ih =>
      obtain ⟨hMem, hHalted⟩ := ih (cpu.written call)
      obtain ⟨hCallMem, hCallHalted⟩ := cpu.written_keeps call
      exact ⟨hMem.trans hCallMem, hHalted.trans hCallHalted⟩

/-- The accessors after a sequence of writes. -/
structure AccessorLaw (cpu : Cpu) (calls : List RegisterWrite) : Prop where
  /-- The first index out of range panics, and its panic names it. -/
  panics : ∀ before index value after, calls = before ++ .writeReg index value :: after →
    (∀ call ∈ before, call.InRange) → 30 < index →
    cpu.writeAll calls = .error (.registerIndex index.toNat)
  reads : (∀ call ∈ calls, call.InRange) → ∃ final, cpu.writeAll calls = .ok final ∧
    final.mem = cpu.mem ∧ final.isHalted = cpu.isHalted ∧
    ∀ cell, (∀ index, cell = .x index → index ≤ 30) →
      final.readCell cell = .ok (((calls.reverse.find? fun call => call.cell = cell).map
        RegisterWrite.value).getD (cpu.cellValue cell))
  reads_before : ∀ cell, (∀ index, cell = .x index → index ≤ 30) →
    cpu.readCell cell = .ok (cpu.cellValue cell)

/-- Registers, SP, PC and PSTATE are a map: every cell holds what the last write to it
has put there, and no write touches another cell, the memory or the halt flag. -/
theorem accessors_are_a_map (cpu : Cpu) (calls : List RegisterWrite) : AccessorLaw cpu calls where
  panics := by
    rintro before index value after rfl hBefore hIndex
    rw [writeAll_append hBefore, writeAll, write_out_of_range _ value hIndex]
    rfl
  reads := by
    intro hRange
    obtain ⟨hMem, hHalted⟩ := foldl_written_keeps calls cpu
    refine ⟨_, writeAll_eq hRange cpu, hMem, hHalted, fun cell hCell => ?_⟩
    rw [readCell_eq _ hCell]
    refine congrArg Except.ok (LastWriter.foldl_eq_find? (fun state => state.cellValue cell)
      (fun state call hWrites => ?_) (fun state call hOther => ?_) calls cpu)
    · obtain rfl := of_decide_eq_true hWrites
      refine cellValue_written_self state ?_
      cases call with
      | writeReg index value => exact hCell index rfl
      | writeSp value => trivial
      | writePc value => trivial
      | writePstate value => trivial
      | setFlags n z c v => trivial
    · exact cellValue_written_of_ne state hCell (of_decide_eq_false hOther)
  reads_before _ hCell := cpu.readCell_eq hCell

end Cpu

end Simulator
