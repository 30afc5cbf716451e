import RustyArm64.Simulator.ExceptionEncoding
import RustyArm64.Simulator.Layout

/-! The words that match an opcode pattern with illegal field values. `decode`
has an error for them and never returns it. -/
namespace Simulator

/-- ADD and SUB (immediate) with bit 23 set, wide moves with the reserved `opc`,
and wide moves of a W register by 32 or 48 bits. -/
def Unallocated (word : UInt32) : Prop :=
  MatchesAddSub word ∧ bits word 23 23 = 1 ∨
  MatchesMovWide word ∧ bits word 30 29 = 0b01 ∨
  MatchesMovWide word ∧ bits word 31 31 = 0 ∧ 2 ≤ bits word 22 21

/-- The word is refused, and no step performs anything in its place. -/
def Refused (word : UInt32) : Prop :=
  decode word = .error .illegalEncoding ∧
  ∀ cpu : Cpu, cpu.mem.word? cpu.regs.pc.toNat = some word → ∃ e, cpu.step = .ok (.error e, cpu)

/-- The only error that `decode` returns. -/
theorem decode_error {word : UInt32} {e : DecodeError} (h : decode word = .error e) :
    e = .unknownOpcode word := by
  unfold decode at h
  split_ifs at h
  exact (Except.error.inj h).symm

theorem Unallocated.matches_pattern {word : UInt32} (h : Unallocated word) :
    MatchesAddSub word ∨ MatchesMovWide word := by
  rcases h with ⟨hAddSub, -⟩ | ⟨hMovWide, -⟩ | ⟨hMovWide, -⟩
  · exact Or.inl hAddSub
  · exact Or.inr hMovWide
  · exact Or.inr hMovWide

/-- A word with the pattern of ADD and SUB or of a wide move is decoded, whatever its
other fields are, and not as a HLT. -/
theorem decode_eq_ok_of_matches {word : UInt32} (h : MatchesAddSub word ∨ MatchesMovWide word) :
    ∃ inst, decode word = .ok inst ∧ inst.isHlt = false := by
  obtain ⟨-, hFirst, hSecond⟩ := patterns_disjoint word
  cases hDecode : decode word with
  | error e =>
      rw [decode_error hDecode] at hDecode
      obtain ⟨hAddSub, hMovWide, -⟩ := (decode_unknownOpcode word).mp hDecode
      exact (h.elim hAddSub hMovWide).elim
  | ok inst =>
      refine ⟨inst, rfl, (Bool.not_eq_true _).mp fun hHlt => ?_⟩
      obtain ⟨imm16, rfl⟩ := Instruction.eq_hlt_of_isHlt hHlt
      have hPattern := (hlt_test word).mp ((decode_hlt_iff word imm16).mp hDecode).1
      rcases h with hAddSub | hMovWide
      · exact hFirst ⟨hAddSub, hPattern⟩
      · exact hSecond ⟨hMovWide, hPattern⟩

/-- An unallocated word is decoded as an ordinary instruction. `IllegalEncoding` is not used. -/
theorem Unallocated.decode_eq_ok {word : UInt32} (h : Unallocated word) :
    ∃ inst, decode word = .ok inst ∧ inst.isHlt = false :=
  decode_eq_ok_of_matches h.matches_pattern

/-- A step at an instruction other than HLT stops without any effect exactly if
the Cpu was halted before and the instruction changes no register. -/
theorem step_refuses_iff {cpu : Cpu} {word : UInt32} {inst : Instruction}
    (hWord : cpu.mem.word? cpu.regs.pc.toNat = some word) (hDecode : decode word = .ok inst)
    (hHlt : inst.isHlt = false) :
    (∃ e, cpu.step = .ok (.error e, cpu)) ↔
      cpu.halted = true ∧ effect cpu.regs inst = cpu.regs := by
  rw [Cpu.step_of_decode hWord hDecode, hHlt, Bool.or_false]
  obtain ⟨regs, mem, halted⟩ := cpu
  cases halted <;> simp

/-- No unallocated word is refused: a running Cpu steps over it, after whatever
effect its fields have. The step leaves everything as it was only on a halted
Cpu, and there only if the instruction has no effect. -/
theorem unallocated_words_execute (word : UInt32) (hWord : Unallocated word) :
    ¬Refused word ∧ ∃ inst, decode word = .ok inst ∧
      ∀ cpu : Cpu, cpu.mem.word? cpu.regs.pc.toNat = some word →
        ((∃ e, cpu.step = .ok (.error e, cpu)) ↔
          cpu.halted = true ∧ effect cpu.regs inst = cpu.regs) ∧
        (cpu.halted = false → cpu.step =
          .ok (.ok (), ⟨(effect cpu.regs inst).writePc (cpu.regs.pc + 4), cpu.mem, false⟩)) := by
  obtain ⟨inst, hDecode, hHlt⟩ := hWord.decode_eq_ok
  refine ⟨fun hRefused => ?_, inst, hDecode, fun cpu hAt => ⟨?_, fun hRunning => ?_⟩⟩
  · rw [hRefused.1] at hDecode
    cases hDecode
  · exact step_refuses_iff hAt hDecode hHlt
  · rw [Cpu.step_of_decode hAt hDecode, hRunning, hHlt]
    rfl

/-- `ADD X0, X0, #1` with bit 23 set. -/
theorem unallocated_words_execute_add : ¬Refused 0x91800400 :=
  (unallocated_words_execute 0x91800400 (Or.inl ⟨rfl, rfl⟩)).1

/-- A Cpu on a memory of one word. -/
def Cpu.onWord (word : UInt32) : Cpu :=
  Cpu.new ⟨⟨toLeBytes word, by rw [toLeBytes_length]; decide⟩⟩

/-- `MOVZ W0, #1, LSL #32` does not exist, and is executed as one that clears W0. -/
theorem unallocated_movz_executes :
    Unallocated 0x52C00020 ∧ decode 0x52C00020 = .ok (.movWideImmediate false 2 32 1 0) ∧
    (Cpu.onWord 0x52C00020).step =
      .ok (.ok (), (Cpu.onWord 0x52C00020).writePc 4) ∧ ¬Refused 0x52C00020 := by
  refine ⟨Or.inr (Or.inr ⟨rfl, rfl, by decide⟩), by decide +kernel, by decide +kernel, ?_⟩
  rintro ⟨hDecode, -⟩
  exact absurd hDecode (by decide +kernel)

end Simulator
