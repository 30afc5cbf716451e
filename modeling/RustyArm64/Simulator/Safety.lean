import RustyArm64.Simulator.Run

/-! No panic is reachable from `step` and `run`. The executor relies on field
ranges that it never checks; the decoder is what guarantees them. -/
namespace Simulator

open CountedLoop

namespace Instruction

/-- The indices that the executor passes to `read` and `write`. -/
def registerFields : Instruction → List UInt8
  | .addSubImmediate _ _ _ rd rn _ _ => [rd, rn]
  | .movWideImmediate _ _ _ _ rd => [rd]
  | .hlt _ => []

/-- The amounts by which the executor shifts an immediate or a mask. -/
def shiftAmounts : Instruction → List UInt8
  | .addSubImmediate _ _ _ _ _ _ shift => [if shift then 12 else 0]
  | .movWideImmediate _ _ hw _ _ => [hw]
  | .hlt _ => []

/-- Every register field of a decoded word has five bits. -/
theorem WellFormed.registerFields {ins : Instruction} (h : ins.WellFormed) :
    ∀ index ∈ ins.registerFields, index ≤ 31 := by
  cases ins with
  | addSubImmediate sf op s rd rn imm12 shift =>
      obtain ⟨hRd, hRn, -⟩ := h
      intro index hIndex
      rcases List.mem_pair.mp hIndex with rfl | rfl
      · exact hRd
      · exact hRn
  | movWideImmediate sf opc hw imm16 rd =>
      intro index hIndex
      rw [List.mem_singleton.mp hIndex]
      exact h.2.2.2
  | hlt imm16 =>
      intro index hIndex
      cases hIndex

/-- Every shift amount of a decoded word is a lane of 16 bits. -/
theorem WellFormed.shiftAmounts {ins : Instruction} (h : ins.WellFormed) :
    ∀ amount ∈ ins.shiftAmounts, amount ≤ 48 := by
  cases ins with
  | addSubImmediate sf op s rd rn imm12 shift =>
      intro amount hAmount
      rw [List.mem_singleton.mp hAmount]
      cases shift <;> decide
  | movWideImmediate sf opc hw imm16 rd =>
      intro amount hAmount
      rw [List.mem_singleton.mp hAmount]
      exact h.2.1
  | hlt imm16 =>
      intro amount hAmount
      cases hAmount

end Instruction

/-- A shift by an amount that a decoded instruction can have. -/
theorem shl_of_le {amount : UInt8} (h : amount ≤ 48) (value : UInt64) :
    ∃ shifted, shl value amount = .ok shifted := by
  have hLt : amount < 64 := by
    rw [UInt8.le_iff_toNat_le] at h
    rw [UInt8.lt_iff_toNat_lt]
    exact lt_of_le_of_lt h (by decide)
  exact ⟨_, shl_eq_ok hLt⟩

namespace Cpu

/-- A turn of the loop hands on what `step` returned, and that is no panic. -/
theorem loops_ne_panic {cpu : Cpu} {calls : Nat} {out : Outcome (Except CpuError Unit × Cpu)}
    (h : Loops runTurn cpu calls out) : ∃ result final, out = .ok (result, final) := by
  induction h with
  | again first rest ih => exact ih
  | leave last =>
      obtain ⟨e, final, -, rfl⟩ := runTurn_leave last
      exact ⟨_, final, rfl⟩

/-- The run ends for every state, with an outcome that is no panic. -/
theorem run_ne_panic (cpu : Cpu) : ∃ result final, cpu.run = .ok (result, final) := by
  obtain ⟨calls, -, hLoops⟩ := CountedLoop.run_loops runTurn remaining remaining_lt_of_again cpu
  exact loops_ne_panic hLoops

/-- `step` and `run` never panic: a fetch stays inside the memory at every
address, and an instruction that comes out of the decoder keeps to the register
indices and shift amounts that the executor can take. -/
theorem never_panics (cpu : Cpu) :
    (∃ result next, cpu.step = .ok (result, next)) ∧
    (∃ result final, cpu.run = .ok (result, final)) ∧
    (∀ addr, ∃ result, cpu.mem.readU32 addr = .ok result) ∧
    ∀ word ins, decode word = .ok ins →
      (∀ index ∈ ins.registerFields, index ≤ 31 ∧
        (∃ value, cpu.regs.read index = .ok value) ∧
        ∀ value, ∃ regs, cpu.regs.write index value = .ok regs) ∧
      (∀ amount ∈ ins.shiftAmounts, amount ≤ 48 ∧
        ∀ value, ∃ shifted, shl value amount = .ok shifted) ∧
      ∃ out, executeInstruction cpu.regs cpu.mem cpu.halted ins = .ok out := by
  refine ⟨cpu.step_ne_panic, cpu.run_ne_panic, ?_, ?_⟩
  · intro addr
    exact ⟨_, cpu.mem.readU32_eq addr⟩
  · intro word ins hDecode
    have hWell := decode_wellFormed hDecode
    refine ⟨?_, ?_, ?_⟩
    · intro index hIndex
      have hLe := hWell.registerFields index hIndex
      exact ⟨hLe, ⟨_, Registers.read_eq hLe⟩, fun value => ⟨_, Registers.write_eq hLe⟩⟩
    · intro amount hAmount
      have hLe := hWell.shiftAmounts amount hAmount
      exact ⟨hLe, shl_of_le hLe⟩
    · exact ⟨_, executeInstruction_eq cpu.regs cpu.mem cpu.halted hWell⟩

end Cpu

end Simulator
