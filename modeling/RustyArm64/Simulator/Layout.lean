import RustyArm64.Base.BitFields
import RustyArm64.Simulator.Decode

/-! The instruction formats that the comments of `decode` lay out, and `decode`
as their inverse. -/
namespace Simulator

open BitFields (Field bit pack width)

/-- Bits `high` to `low` of a word, both included. -/
def bits (word : UInt32) (high low : Nat) : Nat := word.toNat / 2 ^ low % 2 ^ (high + 1 - low)

def MatchesHlt (word : UInt32) : Prop := bits word 31 16 = 0xD403

def MatchesAddSub (word : UInt32) : Prop := bits word 28 24 = 0b10001

def MatchesMovWide (word : UInt32) : Prop := bits word 28 23 = 0b100101

/-- The in-range fields of an instruction. -/
inductive Layout where
  | addSub (sf op s sh : Bool) (imm12 : BitVec 12) (rn rd : BitVec 5)
  | movWide (sf : Bool) (opc : BitVec 2) (opc_ne : opc ≠ 0b01) (hw : BitVec 2) (imm16 : BitVec 16)
    (rd : BitVec 5)
  | hlt (imm16 : BitVec 16)

namespace Layout

def fields : Layout → List Field
  | addSub sf op s sh imm12 rn rd =>
    [bit sf, bit op, bit s, ⟨5, 0b10001⟩, ⟨1, 0⟩, bit sh, ⟨12, imm12⟩, ⟨5, rn⟩, ⟨5, rd⟩]
  | movWide sf opc _ hw imm16 rd =>
    [bit sf, ⟨2, opc⟩, ⟨6, 0b100101⟩, ⟨2, hw⟩, ⟨16, imm16⟩, ⟨5, rd⟩]
  | hlt imm16 => [⟨16, 0xD403⟩, ⟨16, imm16⟩]

/-- The assembled word. -/
def word (layout : Layout) : UInt32 := BitFields.word layout.fields

/-- The instruction with the same fields. -/
def instruction : Layout → Instruction
  | addSub sf op s sh imm12 rn rd =>
    .addSubImmediate sf op s (.ofNat rd.toNat) (.ofNat rn.toNat) (.ofNat imm12.toNat) sh
  | movWide sf opc _ hw imm16 rd =>
    .movWideImmediate sf (.ofNat opc.toNat) (.ofNat (hw.toNat * 16)) (.ofNat imm16.toNat)
      (.ofNat rd.toNat)
  | hlt imm16 => .hlt (.ofNat imm16.toNat)

/-- Every layout fills the word exactly, so a layout is a word and not a prefix of one. -/
theorem width_fields (layout : Layout) : width layout.fields = 32 := by
  cases layout <;> rfl

end Layout

/-- One test of `decode` with the instruction it returns. -/
abbrev Arm := UInt32 → Option Instruction

def hltArm : Arm := fun word =>
  if word >>> 16 = 0xD403 then some (.hlt (word &&& 0xFFFF).toUInt16) else none

def addSubArm : Arm := fun word =>
  if (word >>> 24) &&& 0x1F = 0x11 then
    some (.addSubImmediate ((word >>> 31) &&& 1 == 1) ((word >>> 30) &&& 1 == 1)
      ((word >>> 29) &&& 1 == 1) (word &&& 0x1F).toUInt8 ((word >>> 5) &&& 0x1F).toUInt8
      ((word >>> 10) &&& 0xFFF).toUInt16 ((word >>> 22) &&& 0x3 == 1))
  else none

def movWideArm : Arm := fun word =>
  if (word >>> 23) &&& 0x3F = 0b100101 then
    some (.movWideImmediate ((word >>> 31) &&& 1 == 1) ((word >>> 29) &&& 0x3).toUInt8
      (((word >>> 21) &&& 0x3) * 16).toUInt8 ((word >>> 5) &&& 0xFFFF).toUInt16
      (word &&& 0x1F).toUInt8)
  else none

/-- The tests in the order of the source. -/
def arms : List Arm := [hltArm, addSubArm, movWideArm]

/-- A decoder that makes the given tests, in their order. -/
def decodeBy (order : List Arm) (word : UInt32) : Except DecodeError Instruction :=
  match order.findSome? (· word) with
  | some inst => .ok inst
  | none => .error (.unknownOpcode word)

/-- The chain of tests in `decode` is the search through its three arms, in source order. -/
theorem decode_eq_decodeBy (word : UInt32) : decode word = decodeBy arms word := by
  simp only [decodeBy, arms, List.findSome?_cons, hltArm, addSubArm, movWideArm]
  unfold decode
  split_ifs <;> rfl

section Patterns

variable (word : UInt32)

/-- A field that the code cuts out with a shift and a mask. -/
theorem cut_toNat (shift mask : UInt32) (high low : Nat) (hShift : shift.toNat = low)
    (hLow : low < 32) (hMask : mask.toNat = 2 ^ (high + 1 - low) - 1) :
    ((word >>> shift) &&& mask).toNat = bits word high low := by
  rw [toNat_and_mask _ _ _ hMask, toNat_shiftRight_const _ _ (by omega), hShift, bits]

/-- Masking with ones below bit `high + 1` keeps the field that ends at bit 0. -/
theorem low_toNat (mask : UInt32) (high : Nat) (hMask : mask.toNat = 2 ^ (high + 1) - 1) :
    (word &&& mask).toNat = bits word high 0 := by
  rw [toNat_and_mask _ _ _ hMask, bits, Nat.pow_zero, Nat.div_one, Nat.sub_zero]

/-- The test of the HLT arm. It looks at the upper half-word only, so bits[4:0] are free. -/
theorem hlt_test : word >>> 16 = 0xD403 ↔ MatchesHlt word := by
  have hShift := toNat_shiftRight_const word 16 (by decide)
  have hLt : word.toNat < 4294967296 := word.toNat_lt
  rw [← UInt32.toNat_inj, hShift]
  show word.toNat / 65536 = 54275 ↔ word.toNat / 65536 % 65536 = 54275
  omega

/-- The test of the ADD/SUB arm reads bits[28:24]; sf, op and S above them stay free. -/
theorem addSub_test : (word >>> 24) &&& 0x1F = 0x11 ↔ MatchesAddSub word := by
  rw [← UInt32.toNat_inj, cut_toNat word 24 0x1F 28 24 rfl (by decide) rfl]
  rfl

/-- The test of the MOV wide arm reads bits[28:23]; the reserved opc 0b01 passes it too. -/
theorem movWide_test : (word >>> 23) &&& 0x3F = 0b100101 ↔ MatchesMovWide word := by
  rw [← UInt32.toNat_inj, cut_toNat word 23 0x3F 28 23 rfl (by decide) rfl]
  rfl

/-- No word meets two tests. Disjointness is a fact about the constants alone: nothing in
`decode` enforces it. -/
theorem patterns_disjoint : ¬(MatchesAddSub word ∧ MatchesMovWide word) ∧
    ¬(MatchesAddSub word ∧ MatchesHlt word) ∧ ¬(MatchesMovWide word ∧ MatchesHlt word) := by
  have hAddSub : MatchesAddSub word ↔ word.toNat / 16777216 % 32 = 17 := Iff.rfl
  have hMovWide : MatchesMovWide word ↔ word.toNat / 8388608 % 64 = 37 := Iff.rfl
  have hHlt : MatchesHlt word ↔ word.toNat / 65536 % 65536 = 54275 := Iff.rfl
  rw [hAddSub, hMovWide, hHlt]
  omega

end Patterns

/-- The arms never disagree on a word. -/
theorem arms_agree (word : UInt32) : ∀ a ∈ arms, ∀ b ∈ arms, ∀ inst inst',
    a word = some inst → b word = some inst' → inst = inst' := by
  obtain ⟨hFirst, hSecond, hThird⟩ := patterns_disjoint word
  have hAddSub (inst) (h : addSubArm word = some inst) : MatchesAddSub word :=
    (addSub_test word).mp (by unfold addSubArm at h; split at h <;> simp_all)
  have hMovWide (inst) (h : movWideArm word = some inst) : MatchesMovWide word :=
    (movWide_test word).mp (by unfold movWideArm at h; split at h <;> simp_all)
  have hHlt (inst) (h : hltArm word = some inst) : MatchesHlt word :=
    (hlt_test word).mp (by unfold hltArm at h; split at h <;> simp_all)
  intro a ha b hb inst inst' hInst hInst'
  simp only [arms, List.mem_cons, List.not_mem_nil, or_false] at ha hb
  rcases ha with rfl | rfl | rfl <;> rcases hb with rfl | rfl | rfl
  · exact Option.some.inj (hInst.symm.trans hInst')
  · exact absurd ⟨hAddSub _ hInst', hHlt _ hInst⟩ hSecond
  · exact absurd ⟨hMovWide _ hInst', hHlt _ hInst⟩ hThird
  · exact absurd ⟨hAddSub _ hInst, hHlt _ hInst'⟩ hSecond
  · exact Option.some.inj (hInst.symm.trans hInst')
  · exact absurd ⟨hAddSub _ hInst, hMovWide _ hInst'⟩ hFirst
  · exact absurd ⟨hMovWide _ hInst, hHlt _ hInst'⟩ hThird
  · exact absurd ⟨hAddSub _ hInst', hMovWide _ hInst⟩ hFirst
  · exact Option.some.inj (hInst.symm.trans hInst')

/-- An arm's answer is the decoder's, in whatever order the tests are made. -/
theorem decode_of_arm {arm : Arm} (hArm : arm ∈ arms) {word : UInt32} {inst : Instruction}
    (h : arm word = some inst) : decode word = .ok inst := by
  rw [decode_eq_decodeBy, decodeBy]
  cases hFind : arms.findSome? (· word) with
  | none =>
      rw [List.findSome?_eq_none_iff] at hFind
      exact absurd (hFind arm hArm) (by simp [h])
  | some inst' =>
      obtain ⟨arm', hArm', hInst'⟩ := List.exists_of_findSome?_eq_some hFind
      rw [arms_agree word arm' hArm' arm hArm inst' inst hInst' h]

/-- The order in which the three arms are tried makes no difference to any word. -/
theorem decodeBy_perm {order : List Arm} (hOrder : order.Perm arms) (word : UInt32) :
    decodeBy order word = decode word := by
  rw [decode_eq_decodeBy, decodeBy, decodeBy, hOrder.symm.findSome?_eq (arms_agree word)]

/-- The only error of `decode`, and exactly when it is returned; the word is carried along. -/
theorem decode_unknownOpcode (word : UInt32) : decode word = .error (.unknownOpcode word) ↔
    ¬MatchesAddSub word ∧ ¬MatchesMovWide word ∧ ¬MatchesHlt word := by
  rw [← addSub_test, ← movWide_test, ← hlt_test]
  unfold decode
  split_ifs <;> simp_all

section Cut

variable {field : UInt32}

theorem beq_one_of_toNat {b : Bool} (h : field.toNat = b.toNat) : (field == 1) = b := by
  rw [Bool.eq_iff_iff, beq_iff_eq, ← UInt32.toNat_inj, h]
  cases b <;> decide

theorem toUInt8_of_toNat {n : Nat} (h : field.toNat = n) : field.toUInt8 = UInt8.ofNat n := by
  rw [← h]
  rfl

theorem toUInt16_of_toNat {n : Nat} (h : field.toNat = n) : field.toUInt16 = UInt16.ofNat n := by
  rw [← h]
  rfl

end Cut

namespace Layout

/-- What the bits of an assembled word are, `count` fields from the `first` on. -/
theorem bits_word (layout : Layout) (first count high low : Nat)
    (hLow : width (layout.fields.drop (first + count)) = low)
    (hMiddle : width ((layout.fields.drop first).take count) = high + 1 - low) :
    bits layout.word high low = pack ((layout.fields.drop first).take count) := by
  have hFields : layout.fields.take first ++ (layout.fields.drop first).take count ++
      layout.fields.drop (first + count) = layout.fields := by
    rw [List.append_assoc, ← List.drop_drop, List.take_append_drop, List.take_append_drop]
  have hCut := BitFields.pack_div_mod (layout.fields.take first)
    ((layout.fields.drop first).take count) (layout.fields.drop (first + count))
  rw [hFields, hLow, hMiddle] at hCut
  rw [bits, word, BitFields.word_toNat layout.width_fields, hCut]

theorem hltArm_word (imm16 : BitVec 16) :
    hltArm (hlt imm16).word = some (hlt imm16).instruction := by
  have hTest : MatchesHlt (hlt imm16).word := (hlt imm16).bits_word 0 1 31 16 rfl rfl
  have hImm : ((hlt imm16).word &&& 0xFFFF).toNat = imm16.toNat := by
    rw [low_toNat _ 0xFFFF 15 rfl, (hlt imm16).bits_word 1 1 15 0 rfl rfl]
    exact BitFields.pack_singleton _
  rw [hltArm, if_pos ((hlt_test _).mpr hTest), toUInt16_of_toNat hImm, instruction]

theorem addSubArm_word (sf op s sh : Bool) (imm12 : BitVec 12) (rn rd : BitVec 5) :
    addSubArm (addSub sf op s sh imm12 rn rd).word =
      some (addSub sf op s sh imm12 rn rd).instruction := by
  have hBits := (addSub sf op s sh imm12 rn rd).bits_word
  have hCut := cut_toNat (addSub sf op s sh imm12 rn rd).word
  have hTest : MatchesAddSub (addSub sf op s sh imm12 rn rd).word := hBits 3 1 28 24 rfl rfl
  have hSf := (hCut 31 1 31 31 rfl (by decide) rfl).trans (hBits 0 1 31 31 rfl rfl)
  have hOp := (hCut 30 1 30 30 rfl (by decide) rfl).trans (hBits 1 1 30 30 rfl rfl)
  have hS := (hCut 29 1 29 29 rfl (by decide) rfl).trans (hBits 2 1 29 29 rfl rfl)
  have hSh := (hCut 22 0x3 23 22 rfl (by decide) rfl).trans (hBits 4 2 23 22 rfl rfl)
  have hImm := (hCut 10 0xFFF 21 10 rfl (by decide) rfl).trans (hBits 6 1 21 10 rfl rfl)
  have hRn := (hCut 5 0x1F 9 5 rfl (by decide) rfl).trans (hBits 7 1 9 5 rfl rfl)
  have hRd := (low_toNat (addSub sf op s sh imm12 rn rd).word 0x1F 4 rfl).trans
    (hBits 8 1 4 0 rfl rfl)
  have hShift : pack [⟨1, 0⟩, bit sh] = sh.toNat := by cases sh <;> rfl
  simp only [fields, List.drop, List.take, BitFields.pack_singleton, BitFields.bit_content, hShift]
    at hSf hOp hS hSh hImm hRn hRd
  rw [addSubArm, if_pos ((addSub_test _).mpr hTest), beq_one_of_toNat hSf, beq_one_of_toNat hOp,
    beq_one_of_toNat hS, beq_one_of_toNat hSh, toUInt16_of_toNat hImm, toUInt8_of_toNat hRn,
    toUInt8_of_toNat hRd, instruction]

/-- The reserved opc is excluded from the layout and not by the arm, which would accept it. -/
theorem movWideArm_word (sf : Bool) (opc : BitVec 2) (opc_ne : opc ≠ 0b01) (hw : BitVec 2)
    (imm16 : BitVec 16) (rd : BitVec 5) :
    movWideArm (movWide sf opc opc_ne hw imm16 rd).word =
      some (movWide sf opc opc_ne hw imm16 rd).instruction := by
  have hBits := (movWide sf opc opc_ne hw imm16 rd).bits_word
  have hCut := cut_toNat (movWide sf opc opc_ne hw imm16 rd).word
  have hTest : MatchesMovWide (movWide sf opc opc_ne hw imm16 rd).word := hBits 2 1 28 23 rfl rfl
  have hSf := (hCut 31 1 31 31 rfl (by decide) rfl).trans (hBits 0 1 31 31 rfl rfl)
  have hOpc := (hCut 29 0x3 30 29 rfl (by decide) rfl).trans (hBits 1 1 30 29 rfl rfl)
  have hHw := (hCut 21 0x3 22 21 rfl (by decide) rfl).trans (hBits 3 1 22 21 rfl rfl)
  have hImm := (hCut 5 0xFFFF 20 5 rfl (by decide) rfl).trans (hBits 4 1 20 5 rfl rfl)
  have hRd := (low_toNat (movWide sf opc opc_ne hw imm16 rd).word 0x1F 4 rfl).trans
    (hBits 5 1 4 0 rfl rfl)
  simp only [fields, List.drop, List.take, BitFields.pack_singleton, BitFields.bit_content]
    at hSf hOpc hHw hImm hRd
  have hScaled : ((((movWide sf opc opc_ne hw imm16 rd).word >>> 21) &&& 0x3) * 16).toNat =
      hw.toNat * 16 := by
    have hLt := hw.isLt
    rw [UInt32.toNat_mul, hHw, show (16 : UInt32).toNat = 16 from rfl]
    omega
  rw [movWideArm, if_pos ((movWide_test _).mpr hTest), beq_one_of_toNat hSf,
    toUInt8_of_toNat hOpc, toUInt8_of_toNat hScaled, toUInt16_of_toNat hImm,
    toUInt8_of_toNat hRd, instruction]

/-- Decoding reads back the fields that a layout has packed, for all three encodings. -/
theorem decode_word (layout : Layout) : decode layout.word = .ok layout.instruction := by
  cases layout with
  | addSub sf op s sh imm12 rn rd =>
      exact decode_of_arm (by simp [arms]) (addSubArm_word sf op s sh imm12 rn rd)
  | movWide sf opc opc_ne hw imm16 rd =>
      exact decode_of_arm (by simp [arms]) (movWideArm_word sf opc opc_ne hw imm16 rd)
  | hlt imm16 => exact decode_of_arm (by simp [arms]) (hltArm_word imm16)

/-- No two tuples of fields name the same instruction. -/
theorem instruction_injective : Function.Injective instruction := by
  have hByte {w : Nat} (hWidth : w ≤ 8) {a b : BitVec w}
      (h : UInt8.ofNat a.toNat = UInt8.ofNat b.toNat) : a = b := by
    have hPow : 2 ^ w ≤ 2 ^ 8 := Nat.pow_le_pow_right (by decide) hWidth
    have hNat := congrArg UInt8.toNat h
    rw [UInt8.toNat_ofNat_of_lt' (lt_of_lt_of_le a.isLt hPow),
      UInt8.toNat_ofNat_of_lt' (lt_of_lt_of_le b.isLt hPow)] at hNat
    exact BitVec.eq_of_toNat_eq hNat
  have hHalf {w : Nat} (hWidth : w ≤ 16) {a b : BitVec w}
      (h : UInt16.ofNat a.toNat = UInt16.ofNat b.toNat) : a = b := by
    have hPow : 2 ^ w ≤ 2 ^ 16 := Nat.pow_le_pow_right (by decide) hWidth
    have hNat := congrArg UInt16.toNat h
    rw [UInt16.toNat_ofNat_of_lt' (lt_of_lt_of_le a.isLt hPow),
      UInt16.toNat_ofNat_of_lt' (lt_of_lt_of_le b.isLt hPow)] at hNat
    exact BitVec.eq_of_toNat_eq hNat
  have hScaled {a b : BitVec 2} (h : UInt8.ofNat (a.toNat * 16) = UInt8.ofNat (b.toNat * 16)) :
      a = b := by
    have hNat := congrArg UInt8.toNat h
    have hA := a.isLt
    have hB := b.isLt
    rw [UInt8.toNat_ofNat', UInt8.toNat_ofNat'] at hNat
    exact BitVec.eq_of_toNat_eq (by omega)
  intro layout layout' h
  cases layout <;> cases layout' <;> simp only [instruction, reduceCtorEq] at h
  · injection h with hSf hOp hS hRd hRn hImm hSh
    rw [hSf, hOp, hS, hSh, hByte (by decide) hRd, hByte (by decide) hRn, hHalf (by decide) hImm]
  · injection h with hSf hOpc hHw hImm hRd
    have := hByte (by decide) hOpc
    subst this
    rw [hSf, hScaled hHw, hHalf (by decide) hImm, hByte (by decide) hRd]
  · injection h with hImm
    rw [hHalf (by decide) hImm]

end Layout

/-- `decode` undoes the assembly of every tuple of in-range fields and tells the
assembled words apart. The patterns exclude each other, so that any order of the
tests gives the same decoder, and a word outside them is unknown. -/
theorem decode_inverts_layout :
    (∀ layout : Layout, decode layout.word = .ok layout.instruction) ∧
    (∀ layout layout' : Layout, decode layout.word = decode layout'.word → layout = layout') ∧
    (∀ word, ¬(MatchesAddSub word ∧ MatchesMovWide word) ∧
      ¬(MatchesAddSub word ∧ MatchesHlt word) ∧ ¬(MatchesMovWide word ∧ MatchesHlt word)) ∧
    (∀ order : List Arm, order.Perm arms → ∀ word, decodeBy order word = decode word) ∧
    ∀ word, decode word = .error (.unknownOpcode word) ↔
      ¬MatchesAddSub word ∧ ¬MatchesMovWide word ∧ ¬MatchesHlt word := by
  refine ⟨Layout.decode_word, ?_, patterns_disjoint, fun order hOrder => decodeBy_perm hOrder,
    decode_unknownOpcode⟩
  intro layout layout' h
  rw [layout.decode_word, layout'.decode_word] at h
  exact Layout.instruction_injective (Except.ok.inj h)

end Simulator
