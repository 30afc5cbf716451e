import RustyArm64.Simulator.Cpu

/-! Runs of any length. A run executes the instructions that stand between the
start PC and the first address it cannot get past, and nothing else. -/
namespace Simulator

/-- `execute_instruction` folded over a list, as long as it returns `Ok`. -/
def executeList (regs : Registers) (mem : Memory) (halted : Bool) :
    List Instruction → Outcome (Except ExecError Unit × Registers × Memory × Bool)
  | [] => return (.ok (), regs, mem, halted)
  | inst :: rest => do
    match ← executeInstruction regs mem halted inst with
    | (.ok (), regs, mem, halted) => executeList regs mem halted rest
    | failed => return failed

/-- A list without HLT leaves memory and halt flag alone and folds the register effects. -/
theorem executeList_eq {program : List Instruction} (mem : Memory) (halted : Bool)
    (hFields : ∀ inst ∈ program, inst.WellFormed ∧ inst.isHlt = false) (regs : Registers) :
    executeList regs mem halted program = .ok (.ok (), program.foldl effect regs, mem, halted) := by
  induction program generalizing regs with
  | nil => rfl
  | cons inst rest ih =>
      obtain ⟨hWell, hHlt⟩ := hFields inst (List.mem_cons_self ..)
      rw [executeList, executeInstruction_eq _ _ _ hWell, Outcome.ok_bind, hHlt, Bool.or_false]
      exact ih (fun other hOther => hFields other (List.mem_cons_of_mem _ hOther)) _

/-- No instruction of the list reads or writes the PC, so it can be set before or after. -/
theorem foldl_effect_writePc (program : List Instruction) (regs : Registers) (pc : UInt64) :
    program.foldl effect (regs.writePc pc) = (program.foldl effect regs).writePc pc := by
  induction program generalizing regs with
  | nil => rfl
  | cons inst rest ih => rw [List.foldl_cons, effect_writePc, ih, List.foldl_cons]

namespace Cpu.Site

/-- A run does not get past this site. -/
def stops : Site → Bool
  | .instruction inst => inst.isHlt
  | _ => true

/-- What a run returns that ends at this site with the given PC. -/
def outcome (pc : UInt64) : Site → Except CpuError Unit
  | .outOfBounds => .error (.memoryFault pc)
  | .undecodable word => .error (.unknownInstruction word)
  | .instruction _ => .ok ()

/-- Whether a run that ends at this site has halted. -/
def halts : Site → Bool
  | .instruction _ => true
  | _ => false

end Cpu.Site

namespace Memory

/-- The list of instructions stands in memory from an exact address on, and a
run passes through all of it. -/
def Holds (m : Memory) : Nat → List Instruction → Prop
  | _, [] => True
  | a, inst :: rest => m.site a = .instruction inst ∧ inst.isHlt = false ∧ m.Holds (a + 4) rest

theorem Holds.fits {m : Memory} {a : Nat} {program : List Instruction} (h : m.Holds a program)
    (hNonempty : program ≠ []) : a + 4 * program.length ≤ m.bytes.length := by
  induction program generalizing a with
  | nil => exact (hNonempty rfl).elim
  | cons inst rest ih =>
      obtain ⟨hSite, -, hRest⟩ := h
      obtain ⟨word, hWord, -⟩ := site_eq_instruction hSite
      have hInside := word?_isSome hWord
      cases rest with
      | nil =>
          simp only [List.length_cons, List.length_nil]
          omega
      | cons second tail =>
          have hTail := ih hRest (by simp)
          simp only [List.length_cons] at hTail ⊢
          omega

/-- At each word of a program in memory stands its instruction, and none of them halts. -/
theorem Holds.site_getElem {m : Memory} {a : Nat} {program : List Instruction}
    (h : m.Holds a program) (k : Nat) (hk : k < program.length) :
    m.site (a + 4 * k) = .instruction program[k] ∧ program[k].isHlt = false := by
  induction program generalizing a k with
  | nil => simp at hk
  | cons inst rest ih =>
      obtain ⟨hSite, hHlt, hRest⟩ := h
      cases k with
      | zero => exact ⟨hSite, hHlt⟩
      | succ k =>
          have hTail := ih hRest k (by simpa using hk)
          rw [show a + 4 * (k + 1) = a + 4 + 4 * k by omega]
          exact hTail

theorem Holds.fields {m : Memory} {a : Nat} {program : List Instruction} (h : m.Holds a program) :
    ∀ inst ∈ program, inst.WellFormed ∧ inst.isHlt = false := by
  intro inst hInst
  obtain ⟨k, hk, rfl⟩ := List.getElem_of_mem hInst
  obtain ⟨hSite, hHlt⟩ := h.site_getElem k hk
  obtain ⟨word, -, hDecode⟩ := site_eq_instruction hSite
  exact ⟨decode_wellFormed hDecode, hHlt⟩

/-- From every address there is a finite program that ends at a stop, because
each instruction takes four bytes of a finite memory. -/
theorem exists_program (m : Memory) (a : Nat) :
    ∃ program, m.Holds a program ∧ (m.site (a + 4 * program.length)).stops = true := by
  induction hLeft : m.bytes.length - a using Nat.strongRecOn generalizing a with
  | ind left ih =>
      cases hStop : (m.site a).stops with
      | true => exact ⟨[], trivial, hStop⟩
      | false =>
          cases hSite : m.site a with
          | outOfBounds => simp [hSite, Cpu.Site.stops] at hStop
          | undecodable word => simp [hSite, Cpu.Site.stops] at hStop
          | instruction inst =>
              have hHlt : inst.isHlt = false := by simpa [hSite, Cpu.Site.stops] using hStop
              obtain ⟨word, hWord, -⟩ := site_eq_instruction hSite
              have hInside := word?_isSome hWord
              obtain ⟨rest, hRest, hEnd⟩ := ih _ (by omega) (a + 4) rfl
              refine ⟨inst :: rest, ⟨hSite, hHlt, hRest⟩, ?_⟩
              have hNext : a + 4 * (rest.length + 1) = a + 4 + 4 * rest.length := by omega
              rw [List.length_cons, hNext]
              exact hEnd

end Memory

namespace Cpu

open CountedLoop

/-- The state in which a run ends after the given program. -/
def finish (cpu : Cpu) (program : List Instruction) : Cpu :=
  let pc := cpu.regs.pc + UInt64.ofNat (4 * program.length)
  ⟨(program.foldl effect cpu.regs).writePc pc, cpu.mem,
    (cpu.mem.site (cpu.regs.pc.toNat + 4 * program.length)).halts⟩

/-- Going through one instruction first leads to the same end. -/
theorem finish_cons (cpu : Cpu) (inst : Instruction) (rest : List Instruction)
    (hPc : (cpu.regs.pc + 4).toNat = cpu.regs.pc.toNat + 4) :
    finish (Cpu.writePc ⟨effect cpu.regs inst, cpu.mem, false⟩ (cpu.regs.pc + 4)) rest =
      cpu.finish (inst :: rest) := by
  have hSum : cpu.regs.pc + 4 + UInt64.ofNat (4 * rest.length) =
      cpu.regs.pc + UInt64.ofNat (4 * (rest.length + 1)) := by
    rw [Nat.mul_add, UInt64.ofNat_add, UInt64.add_assoc, UInt64.add_comm 4]
    rfl
  have hEnd : cpu.regs.pc.toNat + 4 + 4 * rest.length =
      cpu.regs.pc.toNat + 4 * (rest.length + 1) := by omega
  simp only [finish, writePc, Registers.writePc_pc, foldl_effect_writePc,
    Registers.writePc_writePc, hSum, hPc, hEnd, List.length_cons, List.foldl_cons]

/-- At a stop the loop is left, also by a CPU that has halted before. -/
theorem runTurn_at_stop {cpu : Cpu} (hStop : cpu.site.stops = true) :
    runTurn cpu = .leave (.ok (cpu.site.outcome cpu.regs.pc,
      { cpu with halted := cpu.halted || cpu.site.halts })) := by
  unfold runTurn
  rw [step_eq]
  cases hSite : cpu.site with
  | outOfBounds => simp [Site.outcome, Site.halts]
  | undecodable word => simp [Site.outcome, Site.halts]
  | instruction inst =>
      have hHlt : inst.isHlt = true := by simpa [hSite, Site.stops] using hStop
      obtain ⟨imm16, rfl⟩ := Instruction.eq_hlt_of_isHlt hHlt
      simp [Instruction.isHlt, effect, Site.outcome, Site.halts]

theorem runTurn_at_instruction {cpu : Cpu} {inst : Instruction} (hRunning : cpu.halted = false)
    (hSite : cpu.site = .instruction inst) (hHlt : inst.isHlt = false) :
    runTurn cpu =
      .again (Cpu.writePc ⟨effect cpu.regs inst, cpu.mem, false⟩ (cpu.regs.pc + 4)) := by
  unfold runTurn
  rw [step_eq, hSite]
  simp [hRunning, hHlt]

/-- One call of the body for each instruction of the program and one more for
the stop behind it. -/
theorem loops_program (program : List Instruction) (cpu : Cpu) (hRunning : cpu.halted = false)
    (hProgram : cpu.mem.Holds cpu.regs.pc.toNat program)
    (hStop : (cpu.mem.site (cpu.regs.pc.toNat + 4 * program.length)).stops = true) :
    Loops runTurn cpu (program.length + 1)
      (.ok ((cpu.mem.site (cpu.regs.pc.toNat + 4 * program.length)).outcome
        (cpu.finish program).regs.pc, cpu.finish program)) := by
  induction program generalizing cpu with
  | nil =>
      have hFinish : cpu.finish [] = { cpu with halted := cpu.halted || cpu.site.halts } := by
        simp [finish, site, Registers.writePc, hRunning]
      rw [hFinish]
      exact Loops.leave (runTurn_at_stop hStop)
  | cons inst rest ih =>
      obtain ⟨hSite, hHlt, hRest⟩ := hProgram
      have hAgain := runTurn_at_instruction hRunning hSite hHlt
      obtain ⟨_, -, -, -, -, hPc, -⟩ := step_ok (runTurn_again hAgain)
      have hFinish := finish_cons cpu inst rest hPc
      have hEnd : cpu.regs.pc.toNat + 4 + 4 * rest.length =
          cpu.regs.pc.toNat + 4 * (inst :: rest).length := by
        rw [List.length_cons]
        omega
      generalize hNext : Cpu.writePc ⟨effect cpu.regs inst, cpu.mem, false⟩ (cpu.regs.pc + 4) = next
        at hAgain hPc hFinish
      have hMem : next.mem = cpu.mem := by rw [← hNext]; rfl
      have hTail := ih next (by rw [← hNext]; rfl)
      rw [hMem, hPc, hEnd, hFinish] at hTail
      exact Loops.again hAgain (hTail hRest hStop)

/-- Whatever the turns of the loop come to is the value of `run`; the count is not kept. -/
theorem run_eq_of_loops {cpu : Cpu} {calls : Nat} {out : Outcome (Except CpuError Unit × Cpu)}
    (h : Loops runTurn cpu calls out) : cpu.run = out :=
  CountedLoop.run_eq_of_loops runTurn remaining remaining_lt_of_again h

/-- A program in memory is run to its end. What then happens is decided by what stands there,
and the run is total: no count of turns has to be given. -/
theorem run_program (program : List Instruction) (cpu : Cpu) (hRunning : cpu.halted = false)
    (hProgram : cpu.mem.Holds cpu.regs.pc.toNat program)
    (hStop : (cpu.mem.site (cpu.regs.pc.toNat + 4 * program.length)).stops = true) :
    cpu.run = .ok ((cpu.mem.site (cpu.regs.pc.toNat + 4 * program.length)).outcome
      (cpu.finish program).regs.pc, cpu.finish program) :=
  run_eq_of_loops (loops_program program cpu hRunning hProgram hStop)

theorem finish_pc {program : List Instruction} {cpu : Cpu}
    (hProgram : cpu.mem.Holds cpu.regs.pc.toNat program) :
    (cpu.finish program).regs.pc.toNat = cpu.regs.pc.toNat + 4 * program.length := by
  have hSize := cpu.mem.bytes_length_lt
  have hPc := cpu.regs.pc.toNat_lt
  have hFits : cpu.regs.pc.toNat + 4 * program.length < 2 ^ 64 := by
    cases program with
    | nil => simpa using hPc
    | cons inst rest => exact lt_of_le_of_lt (hProgram.fits (by simp)) hSize
  rw [finish, Registers.writePc_pc, toNat_add_of_lt] <;> rw [UInt64.toNat_ofNat'] <;> omega

/-- What a run from a state that has not halted did, when it ended with
`result` in the state `final` after `n` instructions. -/
structure RunReport (cpu final : Cpu) (result : Except CpuError Unit) (n : Nat) : Prop where
  /-- At the `n`-th word the run cannot go on, and `n` is the first such index. -/
  stop : (cpu.mem.site (cpu.regs.pc.toNat + 4 * n)).stops = true
  first : ∀ k < n, (cpu.mem.site (cpu.regs.pc.toNat + 4 * k)).stops = false
  /-- The `n` decoded words in order, executed one after the other. -/
  executes : ∃ (program : List Instruction) (regs : Registers), program.length = n ∧
    (∀ (k : Nat) (hk : k < program.length), ∃ word,
      cpu.mem.word? (cpu.regs.pc.toNat + 4 * k) = some word ∧ decode word = .ok program[k]) ∧
    executeList cpu.regs cpu.mem cpu.halted program = .ok (.ok (), regs, cpu.mem, cpu.halted) ∧
    final.regs = regs.writePc final.regs.pc
  calls : Loops runTurn cpu (n + 1) (.ok (result, final))
  pc : final.regs.pc.toNat = cpu.regs.pc.toNat + 4 * n
  mem : final.mem = cpu.mem
  clean : result = .ok () ∧ final.halted = true ↔ ∃ word imm16,
    cpu.mem.word? (cpu.regs.pc.toNat + 4 * n) = some word ∧ decode word = .ok (.hlt imm16)
  unknown : ∀ word, result = .error (.unknownInstruction word) ↔
    cpu.mem.word? (cpu.regs.pc.toNat + 4 * n) = some word ∧ ∃ e, decode word = .error e
  fault : result = .error (.memoryFault final.regs.pc) ↔
    cpu.mem.bytes.length < cpu.regs.pc.toNat + 4 * n + 4

/-- The three ways in which a site stops a run, by the word that stands there. -/
theorem stop_cases {m : Memory} {a : Nat} (hStop : (m.site a).stops = true) :
    (m.word? a = none ∧ m.site a = .outOfBounds) ∨
    (∃ word e, m.word? a = some word ∧ decode word = .error e ∧ m.site a = .undecodable word) ∨
    (∃ word imm16, m.word? a = some word ∧ decode word = .ok (.hlt imm16) ∧
      m.site a = .instruction (.hlt imm16)) := by
  cases hWord : m.word? a with
  | none => exact Or.inl ⟨rfl, by simp [Memory.site, hWord]⟩
  | some word =>
      cases hDecode : decode word with
      | error e =>
          have hSite : m.site a = .undecodable word := by simp [Memory.site, hWord, hDecode]
          exact Or.inr (Or.inl ⟨word, e, rfl, hDecode, hSite⟩)
      | ok inst =>
          have hSite := Memory.site_of_decode hWord hDecode
          rw [hSite, Site.stops] at hStop
          obtain ⟨imm16, rfl⟩ := Instruction.eq_hlt_of_isHlt hStop
          exact Or.inr (Or.inr ⟨word, imm16, rfl, hDecode, hSite⟩)

/-- The run ends cleanly exactly when a HLT follows the program. -/
theorem outcome_clean_iff {m : Memory} {a : Nat} (hStop : (m.site a).stops = true) (pc : UInt64) :
    (m.site a).outcome pc = .ok () ∧ (m.site a).halts = true ↔
      ∃ word imm16, m.word? a = some word ∧ decode word = .ok (.hlt imm16) := by
  rcases stop_cases hStop with ⟨hWord, hSite⟩ | ⟨word, e, hWord, hDecode, hSite⟩ |
    ⟨word, imm16, hWord, hDecode, hSite⟩
  · simp [hSite, hWord, Site.outcome]
  · simp [hSite, hWord, hDecode, Site.outcome]
  · simp [hSite, hWord, hDecode, Site.outcome, Site.halts]

/-- The run reports an unknown instruction exactly when its word follows the program. -/
theorem outcome_unknown_iff {m : Memory} {a : Nat} (hStop : (m.site a).stops = true) (pc : UInt64)
    (other : UInt32) :
    (m.site a).outcome pc = .error (.unknownInstruction other) ↔
      m.word? a = some other ∧ ∃ e, decode other = .error e := by
  rcases stop_cases hStop with ⟨hWord, hSite⟩ | ⟨word, e, hWord, hDecode, hSite⟩ |
    ⟨word, imm16, hWord, hDecode, hSite⟩
  · simp [hSite, hWord, Site.outcome]
  · rw [hSite, hWord]
    constructor
    · rintro ⟨⟩
      exact ⟨rfl, e, hDecode⟩
    · rintro ⟨hEq, -⟩
      cases hEq
      rfl
  · rw [hSite, hWord]
    constructor
    · rintro ⟨⟩
    · rintro ⟨hEq, e, hError⟩
      cases hEq
      rw [hDecode] at hError
      cases hError

/-- The run reports a fault exactly when the memory ends within the next word. -/
theorem outcome_fault_iff {m : Memory} {a : Nat} (hStop : (m.site a).stops = true) (pc : UInt64) :
    (m.site a).outcome pc = .error (.memoryFault pc) ↔ m.bytes.length < a + 4 := by
  rcases stop_cases hStop with ⟨hWord, hSite⟩ | ⟨word, e, hWord, -, hSite⟩ |
    ⟨word, imm16, hWord, -, hSite⟩
  · have hOutside : m.bytes.length < a + 4 := by
      by_contra hInside
      rw [Memory.word?_eq_some (by omega)] at hWord
      cases hWord
    simp [hSite, Site.outcome, hOutside]
  · have hInside := Memory.word?_isSome hWord
    simpa [hSite, Site.outcome] using hInside
  · have hInside := Memory.word?_isSome hWord
    simpa [hSite, Site.outcome] using hInside

/-- Every run from a state that has not halted is such a run: it executes the
decoded words up to the first stop and reports which kind of stop it met. What each of
them does is taken from `executeInstruction`, right or wrong. -/
theorem run_reports (cpu : Cpu) (hRunning : cpu.halted = false) :
    ∃ n result final, cpu.run = .ok (result, final) ∧ RunReport cpu final result n := by
  obtain ⟨program, hProgram, hStop⟩ := cpu.mem.exists_program cpu.regs.pc.toNat
  refine ⟨program.length, _, _, run_program program cpu hRunning hProgram hStop, ?_⟩
  have hPc := finish_pc hProgram
  refine ⟨hStop, ?_, ⟨program, program.foldl effect cpu.regs, rfl, ?_, ?_, rfl⟩,
    loops_program program cpu hRunning hProgram hStop, hPc, rfl, ?_, ?_, ?_⟩
  · intro k hk
    obtain ⟨hSite, hHlt⟩ := hProgram.site_getElem k hk
    rw [hSite, Site.stops, hHlt]
  · intro k hk
    exact Memory.site_eq_instruction (hProgram.site_getElem k hk).1
  · exact executeList_eq cpu.mem cpu.halted hProgram.fields cpu.regs
  · exact outcome_clean_iff hStop _
  · exact outcome_unknown_iff hStop _
  · exact outcome_fault_iff hStop _

/-- MOVZ X0, #10; MOVZ X1, #20; ADD X2, X1, #20; HLT. -/
def smallProgram : Memory :=
  ⟨⟨[0xD2800140, 0xD2800281, 0x91005022, 0xD4030000].flatMap toLeBytes, by decide⟩⟩

theorem run_reports_smallProgram : ∃ n result final,
    (Cpu.new smallProgram).run = .ok (result, final) ∧
      RunReport (Cpu.new smallProgram) final result n :=
  run_reports (Cpu.new smallProgram) rfl

/-- A run leaves the CPU where a second run ends at once, in the same state and
with the same result. Nothing may be written to the CPU between the two. -/
theorem run_again (cpu : Cpu) (hRunning : cpu.halted = false) :
    ∃ result final, cpu.run = .ok (result, final) ∧ final.run = .ok (result, final) := by
  obtain ⟨program, hProgram, hStop⟩ := cpu.mem.exists_program cpu.regs.pc.toNat
  refine ⟨_, _, run_program program cpu hRunning hProgram hStop, ?_⟩
  have hSite : (cpu.finish program).site =
      cpu.mem.site (cpu.regs.pc.toNat + 4 * program.length) := by
    rw [site, finish_pc hProgram]
    rfl
  have hHalted : (cpu.finish program).halted = (cpu.finish program).site.halts := by
    rw [hSite]
    rfl
  have hTurn := runTurn_at_stop (hSite.symm ▸ hStop)
  have hSame : { cpu.finish program with
      halted := (cpu.finish program).halted || (cpu.finish program).site.halts } =
        cpu.finish program := by
    rw [← hHalted, Bool.or_self]
  rw [hSame, hSite] at hTurn
  exact run_eq_of_loops (Loops.leave hTurn)

theorem run_again_smallProgram : ∃ result final,
    (Cpu.new smallProgram).run = .ok (result, final) ∧ final.run = .ok (result, final) :=
  run_again (Cpu.new smallProgram) rfl

/-- The loop bound: the number of calls is limited by the words between the PC
and the end of memory, whatever the halt flag says. -/
theorem loops_calls_le {cpu : Cpu} {calls : Nat} {out : Outcome (Except CpuError Unit × Cpu)}
    (h : Loops runTurn cpu calls out) :
    calls ≤ (cpu.mem.bytes.length - cpu.regs.pc.toNat) / 4 + 1 := by
  induction h with
  | leave last => omega
  | again first rest ih =>
      obtain ⟨inst, -, -, -, rfl, hPc, hInside⟩ := step_ok (runTurn_again first)
      rw [hPc] at ih
      dsimp only at ih
      omega

/-- `run` terminates for every memory, PC and halt flag, within the stated
number of calls of `step`. The measure is the distance of the PC to the end of
memory, and a successful fetch excludes that advancing the PC wraps around. -/
theorem run_terminates (cpu : Cpu) :
    (∃ calls, Loops runTurn cpu calls cpu.run ∧
      (cpu.regs.pc.toNat < cpu.mem.bytes.length →
        calls ≤ (cpu.mem.bytes.length - cpu.regs.pc.toNat) / 4 + 1) ∧
      (cpu.mem.bytes.length ≤ cpu.regs.pc.toNat → calls = 1)) ∧
    ∀ next, cpu.step = .ok (.ok (), next) →
      next.mem.bytes.length = cpu.mem.bytes.length ∧
      next.regs.pc.toNat = cpu.regs.pc.toNat + 4 ∧
      next.regs.pc.toNat ≤ next.mem.bytes.length ∧
      next.mem.bytes.length - next.regs.pc.toNat < cpu.mem.bytes.length - cpu.regs.pc.toNat := by
  refine ⟨?_, ?_⟩
  · obtain ⟨calls, -, hLoops⟩ := CountedLoop.run_loops runTurn remaining remaining_lt_of_again cpu
    have hBound := loops_calls_le hLoops
    have hPos := hLoops.calls_pos
    exact ⟨calls, hLoops, fun _ => hBound, fun hBeyond => by omega⟩
  · intro next hStep
    obtain ⟨inst, -, -, -, rfl, hPc, hInside⟩ := step_ok hStep
    refine ⟨rfl, hPc, ?_, ?_⟩
    · rw [hPc]
      exact hInside
    · rw [hPc]
      dsimp only
      omega

end Cpu

end Simulator
