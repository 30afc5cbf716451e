import RustyArm64.Simulator.Halting
import RustyArm64.Simulator.Safety

/-! Runs under a change of what they do not depend on: the address of the program,
the memory behind its stop, and the way in which the run is driven. -/
namespace Simulator

/-- What stands at an address depends on the word there only. -/
theorem Memory.site_congr {m m' : Memory} {a a' : Nat} (h : m'.word? a' = m.word? a) :
    m'.site a' = m.site a := by
  rw [site, site, h]

theorem Memory.Holds.congr {m m' : Memory} {a a' : Nat} {program : List Instruction}
    (h : m.Holds a program)
    (hSites : ∀ k < program.length, m'.site (a' + 4 * k) = m.site (a + 4 * k)) :
    m'.Holds a' program := by
  induction program generalizing a a' with
  | nil => trivial
  | cons inst rest ih =>
      obtain ⟨hSite, hHlt, hRest⟩ := h
      refine ⟨(hSites 0 (Nat.zero_lt_succ _)).trans hSite, hHlt, ih hRest fun k hk => ?_⟩
      have hNext := hSites (k + 1) (Nat.succ_lt_succ hk)
      rw [show a' + 4 * (k + 1) = a' + 4 + 4 * k by omega,
        show a + 4 * (k + 1) = a + 4 + 4 * k by omega] at hNext
      exact hNext

namespace Cpu

/-- Two CPUs that have not halted, with the same registers but for the PC, and from the
PC on with the same words up to the first that a run does not get past. With one of
them halted, its run would end with its first instruction and the other would go on. -/
structure Relocated (cpu other : Cpu) : Prop where
  running : cpu.halted = false ∧ other.halted = false
  regs : other.regs = cpu.regs.writePc other.regs.pc
  words : ∀ k, (∀ j < k, (cpu.mem.site (cpu.regs.pc.toNat + 4 * j)).stops = false) →
    other.mem.word? (other.regs.pc.toNat + 4 * k) = cpu.mem.word? (cpu.regs.pc.toNat + 4 * k)

/-- The ends of two runs that went through `n` instructions each. -/
structure SameEnd (cpu other final otherFinal : Cpu) (n : Nat)
    (result otherResult : Except CpuError Unit) : Prop where
  regs : otherFinal.regs = final.regs.writePc otherFinal.regs.pc
  pc : final.regs.pc.toNat = cpu.regs.pc.toNat + 4 * n ∧
    otherFinal.regs.pc.toNat = other.regs.pc.toNat + 4 * n
  mem : final.mem = cpu.mem ∧ otherFinal.mem = other.mem
  halted : otherFinal.halted = final.halted
  /-- The results are equal, but for the address of a memory fault. -/
  result : ∃ site : Site,
    result = site.outcome final.regs.pc ∧ otherResult = site.outcome otherFinal.regs.pc

/-- A run of a CPU that has not halted does not depend on where its program stands, nor
on any byte of memory behind the word at which it ends. -/
theorem run_relocated (cpu other : Cpu) (h : Relocated cpu other) :
    ∃ n result otherResult final otherFinal, cpu.run = .ok (result, final) ∧
      other.run = .ok (otherResult, otherFinal) ∧
      SameEnd cpu other final otherFinal n result otherResult := by
  obtain ⟨program, hProgram, hStop⟩ := cpu.mem.exists_program cpu.regs.pc.toNat
  have hSites (k : Nat) (hk : k ≤ program.length) :
      other.mem.site (other.regs.pc.toNat + 4 * k) = cpu.mem.site (cpu.regs.pc.toNat + 4 * k) := by
    refine Memory.site_congr (h.words k fun j hj => ?_)
    obtain ⟨hSite, hHlt⟩ := hProgram.site_getElem j (by omega)
    rw [hSite, Site.stops, hHlt]
  have hOther := hProgram.congr fun k hk => hSites k hk.le
  have hEnd := hSites program.length (Nat.le_refl _)
  have hRegs : (other.finish program).regs =
      (cpu.finish program).regs.writePc (other.finish program).regs.pc := by
    simp only [finish, Registers.writePc_pc, Registers.writePc_writePc]
    conv_lhs => rw [h.regs, foldl_effect_writePc, Registers.writePc_writePc, Registers.writePc_pc]
  refine ⟨program.length, _, _, _, _, run_program program cpu h.running.1 hProgram hStop,
    run_program program other h.running.2 hOther (hEnd ▸ hStop), hRegs,
    ⟨finish_pc hProgram, finish_pc hOther⟩, ⟨rfl, rfl⟩, ?_, ?_⟩
  · simp only [finish, hEnd]
  · exact ⟨_, rfl, by rw [hEnd]⟩

/-- `smallProgram` behind eight bytes, with different bytes behind its HLT. -/
def smallProgramMoved : Memory :=
  ⟨⟨List.replicate 8 0xFF ++ smallProgram.bytes ++ [1, 2, 3], by decide⟩⟩

theorem smallProgram_relocated :
    Relocated (Cpu.new smallProgram) ((Cpu.new smallProgramMoved).writePc 8) where
  running := ⟨rfl, rfl⟩
  regs := rfl
  words := by
    intro k hRunning
    -- The HLT is the fourth word, so that no word behind it is asked for.
    have hLe : k ≤ 3 := by
      by_contra hGt
      have hHlt := hRunning 3 (by omega)
      revert hHlt
      decide +kernel
    have hCases : k = 0 ∨ k = 1 ∨ k = 2 ∨ k = 3 := by omega
    rcases hCases with rfl | rfl | rfl | rfl
    · decide +kernel
    · decide +kernel
    · decide +kernel
    · decide +kernel

theorem run_relocated_smallProgram : ∃ n result otherResult final otherFinal,
    (Cpu.new smallProgram).run = .ok (result, final) ∧
    ((Cpu.new smallProgramMoved).writePc 8).run = .ok (otherResult, otherFinal) ∧
    SameEnd (Cpu.new smallProgram) ((Cpu.new smallProgramMoved).writePc 8) final otherFinal n
      result otherResult :=
  run_relocated (Cpu.new smallProgram) ((Cpu.new smallProgramMoved).writePc 8)
    smallProgram_relocated

open Replay

/-- A CPU on the way through the run of `cpu`, or at its end. -/
structure Underway (cpu c : Cpu) : Prop where
  run : c.run = cpu.run
  halted : c.halted = true → ∃ imm16, c.site = .instruction (.hlt imm16)

/-- A run from a state is the run from the next one. Nothing is said of a step that fails. -/
theorem run_of_step {cpu next : Cpu} (hStep : cpu.step = .ok (.ok (), next)) :
    cpu.run = next.run := by
  rw [run, CountedLoop.run_eq, runTurn, hStep]
  rfl

theorem run_at_hlt {cpu : Cpu} {imm16 : UInt16} (hSite : cpu.site = .instruction (.hlt imm16)) :
    cpu.run = .ok (.ok (), { cpu with halted := true }) := by
  have hStop : cpu.site.stops = true := by rw [hSite]; rfl
  have hTurn := runTurn_at_stop hStop
  rw [hSite, Site.halts, Bool.or_true] at hTurn
  exact run_eq_of_loops (CountedLoop.Loops.leave hTurn)

/-- A step leads on, or finds the end of the run and stays there. -/
theorem Underway.step {cpu c next : Cpu} {result : Except CpuError Unit} (h : Underway cpu c)
    (hStep : c.step = .ok (result, next)) : Underway cpu next := by
  cases hHalted : c.halted with
  | true =>
      obtain ⟨imm16, hSite⟩ := h.halted hHalted
      have hSame : next = c := by
        have hFlag : c = ⟨c.regs, c.mem, true⟩ := by rw [← hHalted]
        rw [step_eq, hSite, hHalted] at hStep
        cases hStep
        exact hFlag.symm
      rw [hSame]
      exact h
  | false =>
      cases result with
      | ok done =>
          obtain ⟨inst, -, -, -, hNext, -⟩ := step_ok hStep
          refine ⟨(run_of_step hStep).symm.trans h.run, fun hNow => ?_⟩
          rw [hNext] at hNow
          cases hNow
      | error e =>
          rcases step_error hStep with ⟨-, rfl⟩ | ⟨inst, hSite, hHalts, -, rfl⟩
          · exact h
          · rw [hHalted] at hHalts
            obtain ⟨imm16, rfl⟩ :=
              Instruction.eq_hlt_of_isHlt (hHalts.resolve_left Bool.false_ne_true)
            have hNow : site ⟨effect c.regs (.hlt imm16), c.mem, true⟩ =
                .instruction (.hlt imm16) := hSite
            refine ⟨?_, fun _ => ⟨imm16, hNow⟩⟩
            rw [run_at_hlt hNow, ← h.run, run_at_hlt hSite]
            rfl

/-- A run is made of steps. -/
theorem Underway.loops {cpu c final : Cpu} {calls : Nat} {result : Except CpuError Unit}
    (hLoops : CountedLoop.Loops runTurn c calls (.ok (result, final))) (h : Underway cpu c) :
    Underway cpu final := by
  generalize hOut : (Except.ok (result, final) : Outcome (Except CpuError Unit × Cpu)) = out
    at hLoops
  induction hLoops with
  | leave last =>
      obtain ⟨e, last, hStep, rfl⟩ := runTurn_leave last
      cases hOut
      exact h.step hStep
  | again first rest ih => exact ih (h.step (runTurn_again first)) hOut

/-- Driving by hand stays on the way of the run. PC writes are excluded. -/
theorem Underway.applyOp {cpu c : Cpu} {op : PublicOp} (h : Underway cpu c)
    (hOp : op = .step ∨ op = .run) : ∃ next, c.applyOp op = some next ∧ Underway cpu next := by
  rcases hOp with rfl | rfl
  · obtain ⟨result, next, hStep⟩ := c.step_ne_panic
    refine ⟨next, ?_, h.step hStep⟩
    rw [Cpu.applyOp, hStep]
    rfl
  · obtain ⟨calls, -, hLoops⟩ := CountedLoop.run_loops runTurn remaining remaining_lt_of_again c
    obtain ⟨result, final, hRun⟩ := c.run_ne_panic
    have hCalled : CountedLoop.run runTurn remaining remaining_lt_of_again c = c.run := rfl
    rw [hCalled, hRun] at hLoops
    refine ⟨final, ?_, Underway.loops hLoops h⟩
    rw [Cpu.applyOp, hRun]
    rfl

/-- However a CPU is driven forward, by single steps and by runs in any order, what
is left to run ends as the run from the start would have. Nothing may be written to the
CPU on the way. -/
theorem run_after_driving (cpu : Cpu) (hRunning : cpu.halted = false) (ops : List PublicOp)
    (hOps : ∀ op ∈ ops, op = .step ∨ op = .run) :
    ∃ c, replay Cpu.applyOp cpu ops = some c ∧ c.run = cpu.run := by
  have hAll : ∀ c, Underway cpu c → ∃ final, replay Cpu.applyOp c ops = some final ∧
      Underway cpu final := by
    induction ops with
    | nil => exact fun c h => ⟨c, rfl, h⟩
    | cons op rest ih =>
        intro c h
        obtain ⟨next, hNext, hUnderway⟩ := h.applyOp (hOps op (List.mem_cons_self ..))
        simp only [replay, hNext]
        exact ih (fun other hOther => hOps other (List.mem_cons_of_mem _ hOther)) next hUnderway
  obtain ⟨final, hFinal, hUnderway⟩ := hAll cpu ⟨rfl, fun hHalted => by simp [hRunning] at hHalted⟩
  exact ⟨final, hFinal, hUnderway.run⟩

theorem run_after_driving_smallProgram :
    ∃ c, replay Cpu.applyOp (Cpu.new smallProgram) [.step, .step, .run, .step] = some c ∧
      c.run = (Cpu.new smallProgram).run :=
  run_after_driving (Cpu.new smallProgram) rfl [.step, .step, .run, .step] (by simp)

end Cpu

end Simulator
