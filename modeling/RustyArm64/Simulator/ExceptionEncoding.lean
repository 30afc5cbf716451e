import RustyArm64.Simulator.EndToEnd

/-! The decoder's HLT next to the exception-generation encodings of A64. The two
sets of words are disjoint: no architectural HLT is recognised, and what is
taken for HLT are SVC, HVC, SMC and unallocated words. -/
namespace Simulator

/-- The exception-generation class: bits 31 to 24 are fixed, `opc` in bits 23 to
21, the immediate in bits 20 to 5, and the rest in bits 4 to 0. -/
def exceptionWord (opc : UInt32) (imm16 : UInt16) (low : UInt32) : UInt32 :=
  (0xD4000000 : UInt32) ||| (opc <<< 21) ||| (imm16.toUInt32 <<< 5) ||| low

def svcWord (imm16 : UInt16) : UInt32 := exceptionWord 0 imm16 1

/-- `HLT #imm16` of the architecture. -/
def hltWord (imm16 : UInt16) : UInt32 := (0xD4400000 : UInt32) ||| (imm16.toUInt32 <<< 5)

theorem hltWord_toNat (imm16 : UInt16) : (hltWord imm16).toNat = 0xD4400000 + 32 * imm16.toNat := by
  have hLt := imm16.toNat_lt
  have hField : (imm16.toUInt32 <<< 5).toNat = 32 * imm16.toNat := by
    rw [UInt32.toNat_shiftLeft, UInt16.toNat_toUInt32, Nat.shiftLeft_eq,
      show (5 : UInt32).toNat % 32 = 5 from rfl]
    omega
  rw [hltWord, UInt32.toNat_or, hField]
  exact (Nat.two_pow_add_eq_or_of_lt (show 32 * imm16.toNat < 2 ^ 21 by omega) 1698).symm

theorem hltWord_upperHalf (imm16 : UInt16) : hltWord imm16 >>> 16 ≠ 0xD403 := by
  have hLt := imm16.toNat_lt
  have hWord := hltWord_toNat imm16
  rw [Ne, ← UInt32.toNat_inj, toNat_shiftRight_const _ 16 (by decide), hWord,
    show (16 : UInt32).toNat = 16 from rfl, show (0xD403 : UInt32).toNat = 0xD403 from rfl]
  omega

/-- No HLT of the architecture is decoded, whatever its immediate. -/
theorem decode_hltWord (imm16 : UInt16) :
    decode (hltWord imm16) = .error (.unknownOpcode (hltWord imm16)) := by
  have hLt := imm16.toNat_lt
  have hWord := hltWord_toNat imm16
  have hAddSub : (hltWord imm16 >>> 24) &&& 0x1F ≠ 0x11 := by
    rw [Ne, ← UInt32.toNat_inj, toNat_and_mask _ 0x1F 5 rfl,
      toNat_shiftRight_const _ 24 (by decide), hWord, show (24 : UInt32).toNat = 24 from rfl,
      show (0x11 : UInt32).toNat = 0x11 from rfl]
    omega
  have hMovWide : (hltWord imm16 >>> 23) &&& 0x3F ≠ 0b100101 := by
    rw [Ne, ← UInt32.toNat_inj, toNat_and_mask _ 0x3F 6 rfl,
      toNat_shiftRight_const _ 23 (by decide), hWord, show (23 : UInt32).toNat = 23 from rfl,
      show (0b100101 : UInt32).toNat = 37 from rfl]
    omega
  rw [decode, if_neg (hltWord_upperHalf imm16), if_neg hAddSub, if_neg hMovWide]

/-- Only the test on the upper half lets a word through as HLT. -/
theorem decode_hlt_iff (word : UInt32) (imm16 : UInt16) :
    decode word = .ok (.hlt imm16) ↔ word >>> 16 = 0xD403 ∧ imm16 = (word &&& 0xFFFF).toUInt16 := by
  unfold decode
  split
  · rename_i hUpper
    rw [Except.ok.injEq, Instruction.hlt.injEq]
    exact ⟨fun hEq => ⟨hUpper, hEq.symm⟩, fun h => h.2.symm⟩
  · rename_i hUpper
    refine iff_of_false ?_ (fun h => hUpper h.1)
    split
    · rintro ⟨⟩
    split
    · rintro ⟨⟩
    · rintro ⟨⟩

/-- The decoder and the architecture agree on whether a word is a HLT, and on
its immediate. -/
def HltAgrees (word : UInt32) : Prop :=
  ∀ imm16, decode word = .ok (.hlt imm16) ↔ word = hltWord imm16

/-- Decoder and architecture agree that a word is no HLT, on all words but those of the two
patterns. They agree on no word that is one. -/
theorem hltAgrees_iff (word : UInt32) :
    HltAgrees word ↔ word >>> 16 ≠ 0xD403 ∧ ∀ imm16, word ≠ hltWord imm16 := by
  constructor
  · intro hAgrees
    refine ⟨fun hUpper => ?_, ?_⟩
    · have hWord := (hAgrees _).mp ((decode_hlt_iff word _).mpr ⟨hUpper, rfl⟩)
      rw [hWord] at hUpper
      exact hltWord_upperHalf _ hUpper
    · rintro imm16 rfl
      have hDecode := (hAgrees imm16).mpr rfl
      rw [decode_hltWord] at hDecode
      cases hDecode
  · rintro ⟨hUpper, hNot⟩ imm16
    refine iff_of_false (fun hDecode => ?_) (hNot imm16)
    exact hUpper ((decode_hlt_iff word imm16).mp hDecode).1

/-- A program behind which an architectural HLT stands is not halted by it. -/
theorem run_to_hltWord {cpu : Cpu} {ws : List UInt32} {imm16 : UInt16}
    (hRunning : cpu.halted = false)
    (hDecodes : ∀ word ∈ ws, ∃ inst, decode word = .ok inst ∧ inst.isHlt = false)
    (hWords : ∀ (k : Nat) (hk : k < ws.length),
      cpu.mem.word? (cpu.regs.pc.toNat + 4 * k) = some ws[k])
    (hLast : cpu.mem.word? (cpu.regs.pc.toNat + 4 * ws.length) = some (hltWord imm16)) :
    ∃ final, cpu.run = .ok (.error (.unknownInstruction (hltWord imm16)), final) ∧
      final.isHalted = false := by
  obtain ⟨program, hDecode, hCount, hHlt⟩ := exists_decoded hDecodes
  have hHolds := Memory.holds_of_words hDecode hHlt hWords
  have hSite : cpu.mem.site (cpu.regs.pc.toNat + 4 * program.length) =
      .undecodable (hltWord imm16) := by
    simp only [Memory.site, hCount, hLast, decode_hltWord]
  have hRun := Cpu.run_program program cpu hRunning hHolds (by rw [hSite]; rfl)
  rw [hSite] at hRun
  refine ⟨_, hRun, ?_⟩
  rw [Cpu.isHalted, Cpu.finish, hSite]
  rfl

/-- A running CPU halts on the words with this upper half and on no other. By the manual these
are SVC, HVC and SMC and words without an instruction. -/
theorem step_halts_iff {cpu : Cpu} {word : UInt32} (hRunning : cpu.halted = false)
    (hWord : cpu.mem.word? cpu.regs.pc.toNat = some word) :
    (∃ next, cpu.step = .ok (.error .halt, next)) ↔ word >>> 16 = 0xD403 := by
  cases hDecode : decode word with
  | error e =>
      have hSite : cpu.site = .undecodable word := by
        simp only [Cpu.site, Memory.site, hWord, hDecode]
      rw [Cpu.step_eq, hSite]
      refine iff_of_false (by simp) (fun hUpper => ?_)
      rw [(decode_hlt_iff word _).mpr ⟨hUpper, rfl⟩] at hDecode
      cases hDecode
  | ok inst =>
      rw [Cpu.step_of_decode hWord hDecode]
      cases hHlt : inst.isHlt with
      | true =>
          obtain ⟨imm16, rfl⟩ := Instruction.eq_hlt_of_isHlt hHlt
          exact iff_of_true (by simp) ((decode_hlt_iff word imm16).mp hDecode).1
      | false =>
          refine iff_of_false (by simp [hRunning]) (fun hUpper => ?_)
          rw [(decode_hlt_iff word _).mpr ⟨hUpper, rfl⟩, Except.ok.injEq] at hDecode
          rw [← hDecode] at hHlt
          cases hHlt

/-- How the decoder's HLT relates to the architecture's, for a word: they agree on
it if it is neither; no program halts at an architectural HLT; and a running Cpu
halts at the word exactly if it has `0xD403` in the upper half. -/
theorem hlt_against_architecture (word : UInt32) :
    (HltAgrees word ↔ word >>> 16 ≠ 0xD403 ∧ ∀ imm16, word ≠ hltWord imm16) ∧
    ((∃ imm16, word = hltWord imm16) → ∀ (cpu : Cpu) (ws : List UInt32), cpu.halted = false →
      (∀ other ∈ ws, ∃ inst, decode other = .ok inst ∧ inst.isHlt = false) →
      (∀ (k : Nat) (hk : k < ws.length),
        cpu.mem.word? (cpu.regs.pc.toNat + 4 * k) = some ws[k]) →
      cpu.mem.word? (cpu.regs.pc.toNat + 4 * ws.length) = some word →
      ∃ final, cpu.run = .ok (.error (.unknownInstruction word), final) ∧
        final.isHalted = false) ∧
    ∀ cpu : Cpu, cpu.halted = false → cpu.mem.word? cpu.regs.pc.toNat = some word →
      ((∃ next, cpu.step = .ok (.error .halt, next)) ↔ word >>> 16 = 0xD403) := by
  refine ⟨hltAgrees_iff word, ?_, ?_⟩
  · rintro ⟨imm16, rfl⟩ cpu ws hRunning hDecodes hWords hLast
    exact run_to_hltWord hRunning hDecodes hWords hLast
  · intro cpu hRunning hWord
    exact step_halts_iff hRunning hWord

/-- `HLT #0` of the architecture is unknown, and `SVC #0x1800` halts. -/
theorem hlt_disagrees :
    decode (hltWord 0) = .error (.unknownOpcode 0xD4400000) ∧ ¬HltAgrees (hltWord 0) ∧
    decode (svcWord 0x1800) = .ok (.hlt 1) ∧ ¬HltAgrees (svcWord 0x1800) := by
  refine ⟨by decide +kernel, ?_, by decide +kernel, ?_⟩
  · rw [hltAgrees_iff]
    exact fun h => h.2 0 rfl
  · rw [hltAgrees_iff]
    exact fun h => h.1 (by decide +kernel)

end Simulator
