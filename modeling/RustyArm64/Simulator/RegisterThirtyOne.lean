import RustyArm64.Simulator.UnallocatedEncoding
import RustyArm64.Simulator.WideArithmetic

/-! Register index 31. It is the zero register for every instruction and in every
operand position, so that the stack pointer is out of reach of a program. -/
namespace Simulator

/-- The part that index 31 plays in an instruction, between the registers before
and after it. A flag-setting ADD or SUB that discards its result sets NZCV as with
any other destination. That these are the architecture's flags is not part of it:
the 32-bit SUB can differ in the carry. -/
def TreatsAsZero (before after : Registers) : Instruction → Prop
  | .addSubImmediate sf op s rd rn imm12 shift =>
    ∃ src, (rn = 31 → src = 0) ∧ (rn ≤ 30 → before.read rn = .ok src) ∧
      (rd = 31 → after.x = before.x) ∧
      (rd ≤ 30 → after.read rd = .ok (addSubOutcome sf op src (immOperand imm12 shift)).1) ∧
      (s = false → after.nzcv = before.nzcv) ∧
      (s = true → after.nzcv = (addSubOutcome sf op src (immOperand imm12 shift)).2 ∧
        ∀ other ≤ 30, ∀ mem halted, ∃ written,
          executeInstruction before mem halted
            (.addSubImmediate sf op true other rn imm12 shift) =
              .ok (.ok (), written, mem, halted) ∧ after.nzcv = written.nzcv)
  | .movWideImmediate _ _ _ _ rd => rd = 31 → after.x = before.x ∧ after.nzcv = before.nzcv
  | .hlt _ => after.x = before.x ∧ after.nzcv = before.nzcv

/-- For the effect on the registers alone; that the step adds nothing but the PC is said below. -/
theorem effect_treatsAsZero (regs : Registers) {ins : Instruction} (h : ins.WellFormed) :
    TreatsAsZero regs (effect regs ins) ins := by
  cases ins with
  | addSubImmediate sf op s rd rn imm12 shift =>
      obtain ⟨hRd, hRn, -⟩ := h
      refine ⟨regs.value rn, ?_, fun _ => Registers.read_eq hRn, ?_, fun hGeneral => ?_, ?_, ?_⟩
      · rintro rfl
        exact Registers.value_thirtyOne regs
      · rintro rfl
        cases s <;> rfl
      · have hPut := Registers.read_put_self regs hGeneral
          (addSubOutcome sf op (regs.value rn) (immOperand imm12 shift)).1
        cases s <;> exact hPut
      · rintro rfl
        simp [effect, Registers.nzcv]
      · rintro rfl
        refine ⟨rfl, fun other hOther mem halted => ?_⟩
        have hRange : other ≤ 31 := UInt8.le_trans hOther (by decide)
        exact ⟨_, executeInstruction_addSub regs mem halted sf op true hRange hRn imm12 shift, rfl⟩
  | movWideImmediate sf opc hw imm16 rd =>
      rintro rfl
      simp only [effect]
      split <;> exact ⟨rfl, rfl⟩
  | hlt imm16 => exact ⟨rfl, rfl⟩

theorem TreatsAsZero.writePc {before after : Registers} {ins : Instruction}
    (h : TreatsAsZero before after ins) (pc : UInt64) :
    TreatsAsZero before (after.writePc pc) ins := by
  cases ins <;> exact h

/-- What a step at a decodable word does with index 31 and the stack pointer: SP
keeps its value, and nothing else depends on it. The architecture has SP in some of
these places, so this is no statement of conformance. -/
theorem register_thirtyOne_is_zero (cpu : Cpu) (word : UInt32) (inst : Instruction)
    (hWord : cpu.mem.word? cpu.regs.pc.toNat = some word) (hDecode : decode word = .ok inst) :
    ∃ result next, cpu.step = .ok (result, next) ∧ next.mem = cpu.mem ∧
      TreatsAsZero cpu.regs next.regs inst ∧ next.readSp = cpu.readSp ∧
      ∀ sp, (cpu.writeSp sp).step = .ok (result, next.writeSp sp) := by
  have hEffect := effect_treatsAsZero cpu.regs (decode_wellFormed hDecode)
  have hStep := Cpu.step_of_decode hWord hDecode
  have hMoved (sp : UInt64) : (cpu.writeSp sp).step = _ := Cpu.step_of_decode hWord hDecode
  have hSp (sp : UInt64) : effect (cpu.writeSp sp).regs inst = (effect cpu.regs inst).writeSp sp :=
    effect_writeSp cpu.regs inst sp
  have hHalted (sp : UInt64) : (cpu.writeSp sp).halted = cpu.halted := rfl
  simp only [hSp, hHalted] at hMoved
  cases hStop : cpu.halted || inst.isHlt with
  | true =>
      simp only [hStop, if_true] at hStep hMoved
      exact ⟨_, _, hStep, rfl, hEffect, effect_sp cpu.regs inst, hMoved⟩
  | false =>
      simp only [hStop, Bool.false_eq_true, if_false] at hStep hMoved
      exact ⟨_, _, hStep, rfl, hEffect.writePc _, effect_sp cpu.regs inst, hMoved⟩

/-- `ADD X0, SP, #16` of the architecture, with SP in use. -/
theorem register_thirtyOne_is_zero_add :
    ∃ result next, ((Cpu.onWord 0x910043E0).writeSp 0xFFFF).step = .ok (result, next) ∧
      next.mem = (Cpu.onWord 0x910043E0).mem ∧
      TreatsAsZero (Registers.new.writeSp 0xFFFF) next.regs
        (.addSubImmediate true false false 0 31 16 false) ∧
      next.readSp = 0xFFFF ∧
      ∀ sp, (Cpu.onWord 0x910043E0 |>.writeSp 0xFFFF |>.writeSp sp).step =
        .ok (result, next.writeSp sp) :=
  register_thirtyOne_is_zero ((Cpu.onWord 0x910043E0).writeSp 0xFFFF) 0x910043E0
    (.addSubImmediate true false false 0 31 16 false) (by decide +kernel) (by decide +kernel)

/-- `ADD X0, SP, #16` puts 16 into X0 and `ADD SP, X1, #5` leaves SP alone, whereas
the architecture adds to SP and writes SP. -/
theorem stack_pointer_out_of_reach :
    decode 0x910043E0 = .ok (.addSubImmediate true false false 0 31 16 false) ∧
    (∃ next, ((Cpu.onWord 0x910043E0).writeSp 0xFFFF).step = .ok (.ok (), next) ∧
      next.readReg 0 = .ok 16 ∧ (16 : UInt64) ≠ 0xFFFF + 16) ∧
    decode 0x9100143F = .ok (.addSubImmediate true false false 31 1 5 false) ∧
    (∃ next, ((Cpu.onWord 0x9100143F).writeSp 0xFFFF).step = .ok (.ok (), next) ∧
      next.readSp = 0xFFFF ∧ (Cpu.onWord 0x9100143F).readReg 1 = .ok 0 ∧
      (0xFFFF : UInt64) ≠ 0 + 5) := by
  refine ⟨by decide +kernel, ⟨_, rfl, ?_⟩, by decide +kernel, ⟨_, rfl, ?_⟩⟩
  · decide +kernel
  · decide +kernel

end Simulator
