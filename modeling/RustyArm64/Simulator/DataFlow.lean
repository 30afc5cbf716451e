import RustyArm64.Base.LastWriter
import RustyArm64.Simulator.NarrowForms
import RustyArm64.Simulator.Run

/-! What a run changes. Each register and the flags are as the last executed
instruction that writes them has left them, and no instruction writes memory. -/
namespace Simulator

section Effect

variable (regs : Registers)

/-- An instruction leaves the registers that are not its destination. -/
theorem effect_value_of_not_writes {r : UInt8} (inst : Instruction) (h : inst.writes r = false) :
    (effect regs inst).value r = regs.value r := by
  cases inst with
  | addSubImmediate sf op s rd rn imm12 shift =>
      have hOther : rd ≠ r := by simpa [Instruction.writes] using h
      cases s <;> exact Registers.value_put_of_ne regs hOther _
  | movWideImmediate sf opc hw imm16 rd =>
      simp only [effect]
      by_cases hOther : rd = r
      · have hReserved : opc = 0b01 := by simpa [Instruction.writes, hOther] using h
        subst hReserved
        rfl
      · split
        · rfl
        · exact Registers.value_put_of_ne regs hOther _
  | hlt imm16 => rfl

/-- Only ADDS and SUBS touch the flags. A wide move never does. -/
theorem effect_nzcv_of_not_setsFlags (inst : Instruction) (h : inst.setsFlags = false) :
    (effect regs inst).nzcv = regs.nzcv := by
  cases inst with
  | addSubImmediate sf op s rd rn imm12 shift =>
      obtain rfl : s = false := h
      simp [effect, Registers.nzcv]
  | movWideImmediate sf opc hw imm16 rd =>
      simp only [effect]
      split
      · rfl
      · simp [Registers.nzcv]
  | hlt imm16 => rfl

end Effect

namespace Cpu

/-- The loop of `run`, with the instructions that it executes. A HLT is one of
them. -/
inductive Runs : Cpu → List Instruction → Except CpuError Unit → Cpu → Prop where
  | again {cpu middle final : Cpu} {inst : Instruction} {program : List Instruction}
      {result : Except CpuError Unit} (hSite : cpu.site = .instruction inst)
      (first : cpu.step = .ok (.ok (), middle)) (rest : Runs middle program result final) :
      Runs cpu (inst :: program) result final
  | halt {cpu final : Cpu} {inst : Instruction} (hSite : cpu.site = .instruction inst)
      (last : cpu.step = .ok (.error .halt, final)) : Runs cpu [inst] (.ok ()) final
  | fault {cpu final : Cpu} {e : CpuError} (hError : e ≠ .halt)
      (last : cpu.step = .ok (.error e, final)) : Runs cpu [] (.error e) final

open CountedLoop

/-- A running CPU fails in two ways: it halts, which sets the flag and nothing else, or it
faults, which leaves it as it was. -/
theorem step_error_of_running {cpu final : Cpu} {e : CpuError} (hRunning : cpu.halted = false)
    (h : cpu.step = .ok (.error e, final)) :
    (∃ imm16, cpu.site = .instruction (.hlt imm16) ∧ e = .halt ∧
      final = { cpu with halted := true }) ∨ (e ≠ .halt ∧ final = cpu) := by
  rcases step_error h with hNothing | ⟨inst, hSite, hHalts, rfl, rfl⟩
  · exact Or.inr hNothing
  · rw [hRunning] at hHalts
    obtain ⟨imm16, rfl⟩ := Instruction.eq_hlt_of_isHlt (hHalts.resolve_left Bool.false_ne_true)
    exact Or.inl ⟨imm16, hSite, rfl, rfl⟩

theorem step_at_instruction {cpu middle : Cpu} {inst : Instruction}
    (hSite : cpu.site = .instruction inst) (h : cpu.step = .ok (.ok (), middle)) :
    inst.isHlt = false ∧
      middle = ⟨(effect cpu.regs inst).writePc (cpu.regs.pc + 4), cpu.mem, false⟩ := by
  obtain ⟨other, hOther, -, hHlt, hMiddle, -⟩ := step_ok h
  rw [hSite] at hOther
  cases hOther
  exact ⟨hHlt, hMiddle⟩

/-- A run is a list of executed instructions and how it ends. The list is that of the words
fetched on the way, not of the memory at the start. -/
theorem runs_of_loops {cpu : Cpu} {calls : Nat} {out : Outcome (Except CpuError Unit × Cpu)}
    (h : Loops runTurn cpu calls out) (hRunning : cpu.halted = false) :
    ∃ program result final, out = .ok (result, final) ∧ Runs cpu program result final := by
  induction h with
  | leave last =>
      obtain ⟨e, final, hStep, rfl⟩ := runTurn_leave last
      rcases step_error_of_running hRunning hStep with ⟨imm16, hSite, rfl, -⟩ | ⟨hError, -⟩
      · exact ⟨_, _, _, rfl, Runs.halt hSite hStep⟩
      · rw [if_neg hError]
        exact ⟨_, _, _, rfl, Runs.fault hError hStep⟩
  | again first rest ih =>
      have hStep := runTurn_again first
      obtain ⟨inst, hSite, -, -, hNext, -⟩ := step_ok hStep
      obtain ⟨program, result, final, hOut, hRuns⟩ := ih (by rw [hNext])
      exact ⟨inst :: program, result, final, hOut, Runs.again hSite hStep hRuns⟩

namespace Runs

variable {cpu final : Cpu} {program : List Instruction} {result : Except CpuError Unit}

/-- Decoding yields no index above 31, so every executed instruction has its effect. -/
theorem wellFormed (h : Runs cpu program result final) : ∀ inst ∈ program, inst.WellFormed := by
  have hDecoded {cpu : Cpu} {inst : Instruction} (hSite : cpu.site = .instruction inst) :
      inst.WellFormed := by
    obtain ⟨word, -, hDecode⟩ := Memory.site_eq_instruction hSite
    exact decode_wellFormed hDecode
  induction h with
  | again hSite first rest ih => exact List.forall_mem_cons.mpr ⟨hDecoded hSite, ih⟩
  | halt hSite last => exact List.forall_mem_singleton.mpr (hDecoded hSite)
  | fault hError last => exact List.forall_mem_nil _

/-- Before its last instruction a run meets no HLT. -/
theorem dropLast_running (h : Runs cpu program result final) :
    ∀ inst ∈ program.dropLast, inst.isHlt = false := by
  induction h with
  | @again cpu middle final inst program result hSite first rest ih =>
      cases program with
      | nil => exact List.forall_mem_nil _
      | cons second tail =>
          rw [List.dropLast_cons_cons]
          exact List.forall_mem_cons.mpr ⟨(step_at_instruction hSite first).1, ih⟩
  | halt hSite last => exact List.forall_mem_nil _
  | fault hError last => exact List.forall_mem_nil _

/-- The registers after a run are the effects of its instructions, one after the other, but
for the PC. -/
theorem regs_eq (h : Runs cpu program result final) (hRunning : cpu.halted = false) :
    final.regs = (program.foldl effect cpu.regs).writePc final.regs.pc := by
  induction h with
  | again hSite first rest ih =>
      obtain ⟨-, rfl⟩ := step_at_instruction hSite first
      rw [ih rfl, foldl_effect_writePc]
      rfl
  | halt hSite last =>
      rcases step_error_of_running hRunning last with ⟨imm16, hHlt, -, rfl⟩ | ⟨hError, -⟩
      · rw [hSite] at hHlt
        cases hHlt
        rfl
      · exact (hError rfl).elim
  | fault hError last =>
      rcases step_error_of_running hRunning last with ⟨-, -, hHalt, -⟩ | ⟨-, rfl⟩
      · exact (hError hHalt).elim
      · rfl

/-- No instruction of the simulator stores to memory. -/
theorem mem_eq (h : Runs cpu program result final) (hRunning : cpu.halted = false) :
    final.mem = cpu.mem := by
  induction h with
  | again hSite first rest ih =>
      obtain ⟨-, rfl⟩ := step_at_instruction hSite first
      exact ih rfl
  | halt hSite last =>
      rcases step_error_of_running hRunning last with ⟨-, -, -, rfl⟩ | ⟨-, rfl⟩ <;> rfl
  | fault hError last =>
      rcases step_error_of_running hRunning last with ⟨-, -, -, rfl⟩ | ⟨-, rfl⟩ <;> rfl

/-- The halt flag is up at the end exactly if the last executed instruction is
a HLT. -/
theorem halted_iff (h : Runs cpu program result final) (hRunning : cpu.halted = false) :
    final.halted = true ↔ ∃ body imm16, program = body ++ [.hlt imm16] := by
  induction h with
  | again hSite first rest ih =>
      obtain ⟨hHlt, rfl⟩ := step_at_instruction hSite first
      rw [ih rfl]
      constructor
      · rintro ⟨body, imm16, rfl⟩
        exact ⟨_ :: body, imm16, rfl⟩
      · rintro ⟨body, imm16, hSplit⟩
        cases body with
        | nil =>
            cases hSplit
            cases hHlt
        | cons inst body =>
            cases hSplit
            exact ⟨body, imm16, rfl⟩
  | halt hSite last =>
      rcases step_error_of_running hRunning last with ⟨imm16, hHlt, -, rfl⟩ | ⟨hError, -⟩
      · rw [hSite] at hHlt
        cases hHlt
        exact iff_of_true rfl ⟨[], imm16, rfl⟩
      · exact (hError rfl).elim
  | fault hError last =>
      rcases step_error_of_running hRunning last with ⟨-, -, hHalt, -⟩ | ⟨-, rfl⟩
      · exact (hError hHalt).elim
      · refine iff_of_false (by simp [hRunning]) ?_
        rintro ⟨body, imm16, hSplit⟩
        simp at hSplit

/-- The part of a run before any of its instructions succeeds. -/
theorem executeList_prefix (h : Runs cpu program result final) (before : List Instruction)
    {inst : Instruction} {after : List Instruction} (hSplit : program = before ++ inst :: after) :
    executeList cpu.regs cpu.mem cpu.halted before =
      .ok (.ok (), before.foldl effect cpu.regs, cpu.mem, cpu.halted) := by
  have hWell := h.wellFormed
  have hLast := h.dropLast_running
  rw [hSplit] at hWell hLast
  rw [List.dropLast_append_of_ne_nil (List.cons_ne_nil _ _)] at hLast
  refine executeList_eq _ _ (fun other hOther => ?_) _
  exact ⟨hWell other (List.mem_append_left _ hOther), hLast other (List.mem_append_left _ hOther)⟩

end Runs

/-- What holds at the end of a run that executes the given instructions. -/
structure DataFlow (cpu final : Cpu) (program : List Instruction) : Prop where
  kept : ∀ r ≤ 30, (∀ inst ∈ program, inst.writes r = false) →
    final.regs.value r = cpu.regs.value r
  narrow : ∀ r ≤ 30, ∀ before inst after, program = before ++ inst :: after →
    inst.writes r = true → (∀ other ∈ after, other.writes r = false) → inst.isNarrow = true →
      (final.regs.value r).toNat < 2 ^ 32
  flagsKept : (∀ inst ∈ program, inst.setsFlags = false) →
    final.regs.getFlags = cpu.regs.getFlags
  /-- The flags are those that the last ADD or SUB with `S = 1` computes of its source,
  which is as the instructions before it have left it, and of its immediate. -/
  flagsSet : ∀ before sf op rd rn imm12 shift after,
    program = before ++ .addSubImmediate sf op true rd rn imm12 shift :: after →
      (∀ other ∈ after, other.setsFlags = false) →
        ∃ regs src, executeList cpu.regs cpu.mem cpu.halted before =
            .ok (.ok (), regs, cpu.mem, cpu.halted) ∧ regs.read rn = .ok src ∧
          final.regs.nzcv = (addSubOutcome sf op src (immOperand imm12 shift)).2
  mem : final.mem = cpu.mem
  halted : final.halted = true ↔ ∃ body imm16, program = body ++ [.hlt imm16]

theorem Runs.dataFlow {cpu final : Cpu} {program : List Instruction}
    {result : Except CpuError Unit} (h : Runs cpu program result final)
    (hRunning : cpu.halted = false) : DataFlow cpu final program := by
  have hRegs := h.regs_eq hRunning
  have hWell := h.wellFormed
  have hValue (r : UInt8) : final.regs.value r = (program.foldl effect cpu.regs).value r := by
    rw [hRegs, Registers.value_writePc]
  have hFlags : final.regs.nzcv = (program.foldl effect cpu.regs).nzcv := by
    rw [hRegs]
    rfl
  have hValueFrame (r : UInt8) (regs : Registers) (inst : Instruction)
      (hKeeps : inst.writes r = false) : (effect regs inst).value r = regs.value r :=
    effect_value_of_not_writes regs inst hKeeps
  refine ⟨?_, ?_, ?_, ?_, h.mem_eq hRunning, h.halted_iff hRunning⟩
  · intro r _ hNone
    rw [hValue]
    exact LastWriter.foldl_kept (Registers.value · r) (hValueFrame r) hNone cpu.regs
  · intro r hGeneral before inst after hSplit hWrites hAfter hNarrow
    rw [hValue, hSplit,
      LastWriter.foldl_last (Registers.value · r) (hValueFrame r) before inst hAfter cpu.regs]
    have hInst : inst ∈ program := hSplit ▸ List.mem_append_right _ List.mem_cons_self
    exact effect_value_narrow _ (hWell inst hInst) hWrites hNarrow hGeneral
  · intro hNone
    have hKept := LastWriter.foldl_kept Registers.nzcv effect_nzcv_of_not_setsFlags hNone cpu.regs
    exact congrArg (fun flags : BitVec.Nzcv => (flags.n, flags.z, flags.c, flags.v))
      (hFlags.trans hKept)
  · intro before sf op rd rn imm12 shift after hSplit hAfter
    have hInst : Instruction.addSubImmediate sf op true rd rn imm12 shift ∈ program :=
      hSplit ▸ List.mem_append_right _ List.mem_cons_self
    refine ⟨_, _, h.executeList_prefix before hSplit, Registers.read_eq (hWell _ hInst).2.1, ?_⟩
    rw [hFlags, hSplit, LastWriter.foldl_last Registers.nzcv effect_nzcv_of_not_setsFlags before _
      hAfter cpu.regs]
    rfl

/-- Whatever the outcome of a run, each register and the flags hold what the last
executed instruction that writes them has left, and the memory is as before. The list of
these instructions is part of the run; it is not read off the memory. -/
theorem run_dataFlow (cpu : Cpu) (hRunning : cpu.halted = false) :
    ∃ program result final, cpu.run = .ok (result, final) ∧ Runs cpu program result final ∧
      DataFlow cpu final program := by
  obtain ⟨calls, -, hLoops⟩ := CountedLoop.run_loops runTurn remaining remaining_lt_of_again cpu
  obtain ⟨program, result, final, hRun, hRuns⟩ := runs_of_loops hLoops hRunning
  exact ⟨program, result, final, hRun, hRuns, hRuns.dataFlow hRunning⟩

theorem run_dataFlow_smallProgram : ∃ program result final,
    (Cpu.new smallProgram).run = .ok (result, final) ∧
      Runs (Cpu.new smallProgram) program result final ∧
        DataFlow (Cpu.new smallProgram) final program :=
  run_dataFlow (Cpu.new smallProgram) rfl

end Cpu

end Simulator
