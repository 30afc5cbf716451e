import Mathlib.Algebra.Group.Nat.Defs
import RustyArm64.Simulator.Rust

/-! The instruction decoder. -/
namespace Simulator

inductive DecodeError where
  /-- The instruction word does not match any known opcode pattern. -/
  | unknownOpcode (word : UInt32)
  /-- The opcode pattern matches, but the field values are illegal. -/
  | illegalEncoding
  deriving DecidableEq, Repr

inductive Instruction where
  /-- ADD or SUB (immediate). -/
  | addSubImmediate (sf op s : Bool) (rd rn : UInt8) (imm12 : UInt16) (shift : Bool)
  /-- MOVZ, MOVN or MOVK. The shift amount `hw` is already scaled by 16. -/
  | movWideImmediate (sf : Bool) (opc hw : UInt8) (imm16 : UInt16) (rd : UInt8)
  | hlt (imm16 : UInt16)
  deriving DecidableEq, Repr

def decode (word : UInt32) : Except DecodeError Instruction :=
  if word >>> 16 = 0xD403 then
    .ok (.hlt (word &&& 0xFFFF).toUInt16)
  else if (word >>> 24) &&& 0x1F = 0x11 then
    let sf := (word >>> 31) &&& 1 == 1
    let op := (word >>> 30) &&& 1 == 1
    let s := (word >>> 29) &&& 1 == 1
    let shift := (word >>> 22) &&& 0x3 == 1
    let imm12 := ((word >>> 10) &&& 0xFFF).toUInt16
    let rn := ((word >>> 5) &&& 0x1F).toUInt8
    let rd := (word &&& 0x1F).toUInt8
    .ok (.addSubImmediate sf op s rd rn imm12 shift)
  else if (word >>> 23) &&& 0x3F = 0b100101 then
    let sf := (word >>> 31) &&& 1 == 1
    let opc := ((word >>> 29) &&& 0x3).toUInt8
    let hw := (((word >>> 21) &&& 0x3) * 16).toUInt8
    let imm16 := ((word >>> 5) &&& 0xFFFF).toUInt16
    let rd := (word &&& 0x1F).toUInt8
    .ok (.movWideImmediate sf opc hw imm16 rd)
  else .error (.unknownOpcode word)

namespace Instruction

def isHlt : Instruction → Bool
  | .hlt _ => true
  | _ => false

theorem eq_hlt_of_isHlt {inst : Instruction} (h : inst.isHlt = true) :
    ∃ imm16, inst = .hlt imm16 := by
  cases inst with
  | hlt imm16 => exact ⟨imm16, rfl⟩
  | addSubImmediate => cases h
  | movWideImmediate => cases h

/-- The field ranges that the executor relies on and never checks. -/
def WellFormed : Instruction → Prop
  | .addSubImmediate _ _ _ rd rn imm12 _ => rd ≤ 31 ∧ rn ≤ 31 ∧ imm12 < 4096
  | .movWideImmediate _ opc hw _ rd => opc ≤ 3 ∧ hw ≤ 48 ∧ 16 ∣ hw.toNat ∧ rd ≤ 31
  | .hlt _ => True

end Instruction

/-- A field cut out by a mask of low ones is below the mask's power of two. -/
theorem toNat_and_mask (word mask : UInt32) (width : Nat) (hMask : mask.toNat = 2 ^ width - 1) :
    (word &&& mask).toNat = word.toNat % 2 ^ width := by
  rw [UInt32.toNat_and, hMask, Nat.and_two_pow_sub_one_eq_mod]

theorem toNat_shiftRight_const (word amount : UInt32) (hAmount : amount.toNat < 32) :
    (word >>> amount).toNat = word.toNat / 2 ^ amount.toNat := by
  rw [UInt32.toNat_shiftRight, Nat.mod_eq_of_lt hAmount, Nat.shiftRight_eq_div_pow]

/-- Every decoded instruction has in-range fields. -/
theorem decode_wellFormed {word : UInt32} {inst : Instruction} (h : decode word = .ok inst) :
    inst.WellFormed := by
  have hFive (w : UInt32) : (w &&& 0x1F).toUInt8 ≤ 31 := by
    have hNat := toNat_and_mask w 0x1F 5 rfl
    rw [UInt8.le_iff_toNat_le, UInt32.toNat_toUInt8, hNat, show (31 : UInt8).toNat = 31 from rfl]
    omega
  have hTwo (w : UInt32) : (w &&& 0x3).toNat < 4 := by
    have hNat := toNat_and_mask w 0x3 2 rfl
    omega
  unfold decode at h
  split at h
  · cases h
    trivial
  split at h
  · cases h
    refine ⟨hFive _, hFive _, ?_⟩
    have hNat := toNat_and_mask (word >>> 10) 0xFFF 12 rfl
    rw [UInt16.lt_iff_toNat_lt, UInt32.toNat_toUInt16, hNat,
      show (4096 : UInt16).toNat = 4096 from rfl]
    omega
  split at h
  · cases h
    have hHw := hTwo (word >>> 21)
    have hNat : (((word >>> 21) &&& 0x3) * 16).toUInt8.toNat =
        ((word >>> 21) &&& 0x3).toNat * 16 := by
      rw [UInt32.toNat_toUInt8, UInt32.toNat_mul, show (16 : UInt32).toNat = 16 from rfl]
      omega
    refine ⟨?_, ?_, ?_, hFive _⟩
    · have hOpc := hTwo (word >>> 29)
      rw [UInt8.le_iff_toNat_le, UInt32.toNat_toUInt8, show (3 : UInt8).toNat = 3 from rfl]
      omega
    · rw [UInt8.le_iff_toNat_le, hNat, show (48 : UInt8).toNat = 48 from rfl]
      omega
    · rw [hNat]
      exact Nat.dvd_mul_left 16 _
  · cases h

end Simulator
