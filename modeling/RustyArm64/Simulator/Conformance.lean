import RustyArm64.Simulator.Architecture
import RustyArm64.Simulator.Relocation

/-! Steps and runs of the simulator against the reference machine, and the words on
which the two never differ. The reference machine covers ADD and SUB (immediate) and
the wide moves. For all other instruction classes of the architecture it has no step,
and nothing here compares the simulator with the architecture on them. -/
namespace Simulator

open BitVec (addSubResult)

/-- The reference fetches the word that the simulator fetches. Addresses are not aligned on
either side. -/
theorem Memory.code_eq {m : Memory} {pc : UInt64} {word : UInt32}
    (h : m.word? pc.toNat = some word) : m.code pc.toBitVec = some word.toBitVec := by
  rw [code, UInt64.toNat_toBitVec, h, Option.map_some]

namespace Cpu

/-- The next word is unallocated, or an instruction that departs in this state. -/
def Departs (cpu : Cpu) : Prop := ∃ word, cpu.mem.word? cpu.regs.pc.toNat = some word ∧
  (Unallocated word ∨ ∃ inst, decode word = .ok inst ∧ inst.Departs cpu.regs)

/-- The CPU after a number of successful steps. -/
def after (cpu : Cpu) : Nat → Cpu
  | 0 => cpu
  | n + 1 =>
    match (cpu.after n).step with
    | .ok (.ok (), next) => next
    | _ => cpu.after n

/-- One step more from the state reached. -/
theorem after_succ {cpu next : Cpu} {n : Nat} (hStep : (cpu.after n).step = .ok (.ok (), next)) :
    cpu.after (n + 1) = next := by
  rw [after, hStep]

/-- The reference executes the fetched word and goes on behind it. It has no branches, so
the PC is not for the instruction to set. -/
theorem reference_step {cpu : Cpu} {word : UInt32}
    (hWord : cpu.mem.word? cpu.regs.pc.toNat = some word) :
    A64.step cpu.mem.code cpu.regs.arch = (A64.execute word.toBitVec cpu.regs.arch).map
      fun next => { next with pc := cpu.regs.arch.pc + 4 } := by
  have hCode : cpu.mem.code cpu.regs.arch.pc = some word.toBitVec := Memory.code_eq hWord
  exact A64.step_of_code hCode

/-- At an instruction that does not depart, the reference machine takes the step of
the simulator. -/
theorem reference_step_of_site {cpu : Cpu} {inst : Instruction}
    (hSite : cpu.site = .instruction inst) (hHlt : inst.isHlt = false) (hDeparts : ¬cpu.Departs) :
    A64.step cpu.mem.code cpu.regs.arch =
      some ((effect cpu.regs inst).writePc (cpu.regs.pc + 4)).arch := by
  obtain ⟨word, hWord, hDecode⟩ := Memory.site_eq_instruction hSite
  have hAllocated : ¬Unallocated word := fun h => hDeparts ⟨word, hWord, Or.inl h⟩
  have hKeeps : ¬inst.Departs cpu.regs :=
    fun h => hDeparts ⟨word, hWord, Or.inr ⟨inst, hDecode, h⟩⟩
  rw [reference_step hWord, execute_of_decode hDecode hHlt hAllocated hKeeps]
  rfl

/-- Where a run cannot go on, the reference machine has nothing to execute. -/
theorem reference_stuck {cpu : Cpu} (hStop : cpu.site.stops = true) :
    A64.step cpu.mem.code cpu.regs.arch = none := by
  cases hWord : cpu.mem.word? cpu.regs.pc.toNat with
  | none =>
      refine A64.step_none ?_
      rw [Memory.code, Registers.arch, UInt64.toNat_toBitVec, hWord, Option.map_none]
  | some word => rw [reference_step hWord, execute_of_stops hWord hStop, Option.map_none]

/-- The CPU on its way through a program that stands in its memory. -/
structure OnTheWay (cpu c : Cpu) (k : Nat) : Prop where
  mem : c.mem = cpu.mem
  running : c.halted = false
  pc : c.regs.pc.toNat = cpu.regs.pc.toNat + 4 * k

section Way

variable {cpu : Cpu} {program : List Instruction}

theorem OnTheWay.site {c : Cpu} {k : Nat} (h : OnTheWay cpu c k) :
    c.site = cpu.mem.site (cpu.regs.pc.toNat + 4 * k) := by
  rw [Cpu.site, h.mem, h.pc]

/-- A step of a program that lies in memory goes to its next instruction. -/
theorem OnTheWay.step (hProgram : cpu.mem.Holds cpu.regs.pc.toNat program) {c : Cpu} {k : Nat}
    (h : OnTheWay cpu c k) (hk : k < program.length) :
    ∃ next, c.step = .ok (.ok (), next) ∧ OnTheWay cpu next (k + 1) ∧
      next.regs = (effect c.regs program[k]).writePc (c.regs.pc + 4) := by
  obtain ⟨hSite, hHlt⟩ := hProgram.site_getElem k hk
  rw [← h.site] at hSite
  have hStep := runTurn_again (runTurn_at_instruction h.running hSite hHlt)
  obtain ⟨-, -, -, -, -, hPc, -⟩ := step_ok hStep
  refine ⟨_, hStep, ⟨h.mem, rfl, ?_⟩, rfl⟩
  rw [hPc, h.pc]
  omega

/-- The visited states of a run, one for each instruction. -/
theorem after_onTheWay (hRunning : cpu.halted = false)
    (hProgram : cpu.mem.Holds cpu.regs.pc.toNat program) (k : Nat) (hk : k ≤ program.length) :
    OnTheWay cpu (cpu.after k) k ∧ (cpu.after k).run = cpu.run := by
  induction k with
  | zero => exact ⟨⟨rfl, hRunning, rfl⟩, rfl⟩
  | succ k ih =>
      obtain ⟨hWay, hRun⟩ := ih (Nat.le_of_succ_le hk)
      obtain ⟨next, hStep, hNext, -⟩ := hWay.step hProgram hk
      rw [after_succ hStep]
      exact ⟨hNext, (run_of_step hStep).symm.trans hRun⟩

end Way

/-- A run of `n` instructions next to the reference machine for ADD and SUB (immediate)
and the wide moves. -/
structure FollowsReference (cpu final : Cpu) (n : Nat) : Prop where
  /-- As long as no instruction departs, the machines go through the same states. -/
  agrees : ∀ k ≤ n, (∀ j < k, ¬(cpu.after j).Departs) →
    A64.runFor cpu.mem.code k cpu.regs.arch = some (cpu.after k).regs.arch
  last : final.regs = (cpu.after n).regs
  /-- No instruction of the two classes writes memory, and neither does the run. -/
  mem : final.mem = cpu.mem
  /-- Where the run ends, there is no word of the two classes. -/
  stuck : A64.step cpu.mem.code final.regs.arch = none

/-- Every run is the reference machine's up to the first instruction that departs,
and ends with it if there is none. After a departing instruction the two may go
different ways, and nothing is said of them. -/
theorem run_follows_reference (cpu : Cpu) (hRunning : cpu.halted = false) :
    ∃ n result final, cpu.run = .ok (result, final) ∧ FollowsReference cpu final n := by
  obtain ⟨program, hProgram, hStop⟩ := cpu.mem.exists_program cpu.regs.pc.toNat
  obtain ⟨hEnd, hRun⟩ := after_onTheWay hRunning hProgram program.length (Nat.le_refl _)
  have hSite := hEnd.site
  have hLeaves := CountedLoop.Loops.leave (runTurn_at_stop (hSite.symm ▸ hStop))
  refine ⟨program.length, _, _, hRun.symm.trans (run_eq_of_loops hLeaves), ?_, rfl, hEnd.mem, ?_⟩
  · intro k hk hKeeps
    refine A64.runFor_of_lockstep (fun c => c.regs.arch) cpu.after k fun j hj => ?_
    obtain ⟨hWay, -⟩ := after_onTheWay hRunning hProgram j (by omega)
    obtain ⟨next, hStep, -, hRegs⟩ := hWay.step hProgram (by omega)
    obtain ⟨hInst, hHlt⟩ := hProgram.site_getElem j (by omega)
    rw [← hWay.site] at hInst
    rw [after_succ hStep, hRegs, ← hWay.mem]
    exact reference_step_of_site hInst hHlt (hKeeps j hj)
  · rw [← hEnd.mem]
    exact reference_stuck (hSite.symm ▸ hStop)

theorem run_follows_reference_smallProgram : ∃ n result final,
    (Cpu.new smallProgram).run = .ok (result, final) ∧
      FollowsReference (Cpu.new smallProgram) final n :=
  run_follows_reference (Cpu.new smallProgram) rfl

end Cpu

/-- The words of the two classes that the reference machine covers. -/
def Covered (word : UInt32) : Prop := MatchesAddSub word ∨ MatchesMovWide word

/-- A step at the word is the reference machine's, from every state of a CPU that has
not halted. A word of another class never conforms, since the reference machine has
no step there: that is no verdict on what the architecture does. -/
def Conforms (word : UInt32) : Prop :=
  ∀ cpu : Cpu, cpu.halted = false → cpu.mem.word? cpu.regs.pc.toNat = some word →
    ∃ next, cpu.step = .ok (.ok (), next) ∧ next.mem = cpu.mem ∧ next.halted = false ∧
      A64.step cpu.mem.code cpu.regs.arch = some next.regs.arch

/-- A step at the word executes nothing: it is an error that leaves registers and
memory, and that halts at the words which the decoder takes for HLT alone. -/
def StandsStill (word : UInt32) : Prop :=
  ∀ cpu : Cpu, cpu.halted = false → cpu.mem.word? cpu.regs.pc.toNat = some word →
    ∃ e next, cpu.step = .ok (.error e, next) ∧ next.regs = cpu.regs ∧ next.mem = cpu.mem ∧
      (MatchesHlt word → e = .halt ∧ next.halted = true) ∧
      (¬MatchesHlt word → e = .unknownInstruction word ∧ next.halted = false)

/-- ADD and SUB with the stack pointer as source or, where no flags are set, as
destination. -/
def NamesSp (word : UInt32) : Prop :=
  bits word 9 5 = 31 ∨ bits word 4 0 = 31 ∧ bits word 29 29 = 0

/-- The 64-bit ADD and SUB of zero from the stack pointer to itself. -/
def KeepsSp (word : UInt32) : Prop :=
  bits word 31 31 = 1 ∧ bits word 29 29 = 0 ∧ bits word 21 10 = 0 ∧ bits word 9 5 = 31 ∧
    bits word 4 0 = 31

/-- The 32-bit SUBS of a nonzero immediate. -/
def NarrowSubs (word : UInt32) : Prop :=
  bits word 31 31 = 0 ∧ bits word 30 29 = 0b11 ∧ bits word 21 10 ≠ 0

section Reference

variable {w : Nat} (op s sh : Bool) (imm12 : BitVec 12) (rn rd : BitVec 5) (state : A64.State)

/-- The operand of the reference machine. -/
def referenceOperand (w : Nat) (sh : Bool) (imm12 : BitVec 12) : BitVec w :=
  imm12.setWidth w <<< (if sh then 12 else 0)

/-- Its result, for the value of a source register. -/
def referenceResult (w : Nat) (op sh : Bool) (imm12 : BitVec 12) (source : BitVec 64) : BitVec w :=
  (addSubResult op (source.setWidth w) (referenceOperand w sh imm12)).1

/-- The result of the reference in a general-purpose register, at either width. -/
theorem addSub_general (hRd : rd ≠ 31) :
    (A64.addSub w op s sh imm12 rn rd state).general rd =
      (referenceResult w op sh imm12 (state.generalOrSp rn)).setWidth 64 := by
  have hLt : rd.toNat < 31 := by
    have hBound := rd.isLt
    have hNe : rd.toNat ≠ 31 := fun h => hRd (BitVec.eq_of_toNat_eq h)
    omega
  cases s with
  | false => simp [A64.addSub, setGeneralOrSp_of_ne hRd, A64.State.setGeneral, A64.State.general,
      hLt, referenceResult, referenceOperand]
  | true => simp [A64.addSub, A64.State.setGeneral, A64.State.general, hLt, referenceResult,
      referenceOperand]

theorem addSub_sp :
    (A64.addSub w op false sh imm12 rn 31 state).sp =
      (referenceResult w op sh imm12 (state.generalOrSp rn)).setWidth 64 := rfl

theorem addSub_flags_z : (A64.addSub w op true sh imm12 rn rd state).flags.z =
    (referenceResult w op sh imm12 (state.generalOrSp rn) == 0) :=
  BitVec.addSubResult_zero op _ _

end Reference

section Differs

variable {sf op s sh : Bool} {imm12 : BitVec 12} {rn rd : BitVec 5}

/-- A register file with nothing but a stack pointer in it. -/
def stackOnly (sp : BitVec 64) : Registers := Registers.new.writeSp ⟨sp⟩

/-- The simulator does the same whatever SP holds, as it reads the zero register instead. -/
theorem effect_stackOnly (inst : Instruction) (sp : BitVec 64) :
    (effect (stackOnly sp) inst).arch = { (effect Registers.new inst).arch with sp := sp } := by
  have hMove := effect_writeSp Registers.new inst ⟨sp⟩
  rw [stackOnly, hMove]
  rfl

theorem generalOrSp_stackOnly (sp : BitVec 64) : (stackOnly sp).arch.generalOrSp 31 = sp := rfl

theorem generalOrSp_stackOnly_of_ne (hRn : rn ≠ 31) (sp : BitVec 64) :
    (stackOnly sp).arch.generalOrSp rn = 0 := by
  rw [A64.State.generalOrSp, if_neg hRn, arch_general, stackOnly, Registers.value_writeSp]
  unfold Registers.value
  split
  · simp [Registers.new]
  · rfl

/-- The source is read in full at either width. -/
theorem referenceResult_injective {w : Nat} (hPos : 0 < w) (hWidth : w ≤ 64) {x x' : BitVec 64}
    (h : (referenceResult w op sh imm12 x).setWidth 64 =
      (referenceResult w op sh imm12 x').setWidth 64) : x.setWidth w = x'.setWidth w := by
  have hNat := congrArg BitVec.toNat h
  rw [BitVec.toNat_setWidth_of_le hWidth, BitVec.toNat_setWidth_of_le hWidth] at hNat
  have hResult : referenceResult w op sh imm12 x = referenceResult w op sh imm12 x' :=
    BitVec.eq_of_toNat_eq hNat
  exact BitVec.addSubResult_injective op hPos hResult

theorem zero_ne_one_setWidth {w : Nat} (hPos : 0 < w) :
    (0 : BitVec 64).setWidth w ≠ (1 : BitVec 64).setWidth w := by
  intro h
  have hNat := congrArg BitVec.toNat h
  have hTwo : 2 ≤ 2 ^ w := Nat.pow_le_pow_right (by decide : 0 < 2) hPos
  rw [BitVec.toNat_setWidth, BitVec.toNat_setWidth, show (0 : BitVec 64).toNat = 0 from rfl,
    show (1 : BitVec 64).toNat = 1 from rfl, Nat.zero_mod, Nat.mod_eq_of_lt hTwo] at hNat
  cases hNat

variable (sf op s sh imm12 rn rd) in
/-- The reference machine and the simulator agree on an ADD or SUB in this state. -/
def SameAddSub (regs : Registers) : Prop :=
  A64.addSub (if sf then 64 else 32) op s sh imm12 rn rd regs.arch =
    (effect regs (.addSubImmediate sf op s (.ofNat rd.toNat) (.ofNat rn.toNat)
      (.ofNat imm12.toNat) sh)).arch

section Width

variable {w : Nat} (hPos : 0 < w) (hWidth : w ≤ 64) (after : BitVec 64 → A64.State)

include hPos hWidth

/-- With SP as the source, a general register shows the value of SP. -/
theorem source_shows_in_register (hRd : rd ≠ 31) (ins : Instruction)
    (hSame : ∀ sp, A64.addSub w op s sh imm12 31 rd (stackOnly sp).arch =
      (effect (stackOnly sp) ins).arch) : False := by
  have hGeneral (sp : BitVec 64) : (referenceResult w op sh imm12 sp).setWidth 64 =
      (effect Registers.new ins).arch.general rd := by
    have hValue := addSub_general (w := w) op s sh imm12 31 rd (stackOnly sp).arch hRd
    rw [hSame, effect_stackOnly, generalOrSp_stackOnly] at hValue
    exact hValue.symm
  exact zero_ne_one_setWidth hPos
    (referenceResult_injective hPos hWidth ((hGeneral 0).trans (hGeneral 1).symm))

/-- With SP as the source, the zero flag shows the value of SP. -/
theorem source_shows_in_flags (ins : Instruction)
    (hSame : ∀ sp, A64.addSub w op true sh imm12 31 rd (stackOnly sp).arch =
      (effect (stackOnly sp) ins).arch) : False := by
  have hFlag (sp : BitVec 64) : (referenceResult w op sh imm12 sp == 0) =
      (effect Registers.new ins).arch.flags.z := by
    have hValue := addSub_flags_z (w := w) op sh imm12 31 rd (stackOnly sp).arch
    rw [hSame, effect_stackOnly, generalOrSp_stackOnly] at hValue
    exact hValue.symm
  obtain ⟨x, hZero⟩ := BitVec.addSubResult_surjective op hPos (referenceOperand w sh imm12) 0
  have hSource : referenceResult w op sh imm12 (x.setWidth 64) = 0 := by
    rw [referenceResult, BitVec.setWidth_setWidth_of_le _ hWidth, BitVec.setWidth_eq, hZero]
  have hAll (sp : BitVec 64) : referenceResult w op sh imm12 sp = 0 := by
    rw [← beq_iff_eq, hFlag, ← hFlag (x.setWidth 64), hSource, beq_self_eq_true]
  have hEqual : (referenceResult w op sh imm12 0).setWidth 64 =
      (referenceResult w op sh imm12 1).setWidth 64 := by rw [hAll, hAll]
  exact zero_ne_one_setWidth hPos (referenceResult_injective hPos hWidth hEqual)

end Width

/-- A general source does not show the value of SP, which the destination has. -/
theorem destination_shows {w : Nat} (ins : Instruction) (hRn : rn ≠ 31)
    (hSame : ∀ sp, A64.addSub w op false sh imm12 rn 31 (stackOnly sp).arch =
      (effect (stackOnly sp) ins).arch) : False := by
  have hSp (sp : BitVec 64) : (referenceResult w op sh imm12 0).setWidth 64 = sp := by
    have hValue := addSub_sp (w := w) op sh imm12 rn (stackOnly sp).arch
    rw [hSame, effect_stackOnly, generalOrSp_stackOnly_of_ne hRn] at hValue
    exact hValue.symm
  exact absurd ((hSp 0).symm.trans (hSp 1)) (by decide)

/-- The stack pointer as source and destination, at 32 bits. -/
theorem narrow_shows (ins : Instruction)
    (hSame : ∀ sp, A64.addSub 32 op false sh imm12 31 31 (stackOnly sp).arch =
      (effect (stackOnly sp) ins).arch) : False := by
  have hValue := addSub_sp (w := 32) op sh imm12 31 (stackOnly (2 ^ 32)).arch
  rw [hSame, effect_stackOnly, generalOrSp_stackOnly] at hValue
  have hNat := congrArg BitVec.toNat hValue
  have hLt := (referenceResult 32 op sh imm12 (2 ^ 32)).isLt
  rw [BitVec.toNat_setWidth_of_le (by decide)] at hNat
  change 4294967296 = _ at hNat
  omega

/-- The stack pointer as source and destination, at 64 bits. -/
theorem wide_shows (ins : Instruction) (hImm : imm12 ≠ 0)
    (hSame : ∀ sp, A64.addSub 64 op false sh imm12 31 31 (stackOnly sp).arch =
      (effect (stackOnly sp) ins).arch) : False := by
  have hValue := addSub_sp (w := 64) op sh imm12 31 (stackOnly 0).arch
  rw [hSame, effect_stackOnly, generalOrSp_stackOnly, BitVec.setWidth_eq, referenceResult,
    BitVec.addSubResult_value op (by decide)] at hValue
  have hOperand : referenceOperand 64 sh imm12 = 0 := by
    cases op with
    | false => simpa using hValue.symm
    | true => simpa using hValue.symm
  have hNat := congrArg BitVec.toNat hOperand
  have hLt := imm12.isLt
  have hPos : imm12.toNat ≠ 0 := fun h => hImm (BitVec.eq_of_toNat_eq h)
  rw [referenceOperand, BitVec.toNat_shiftLeft, BitVec.toNat_setWidth, Nat.shiftLeft_eq] at hNat
  cases sh with
  | false => simp at hNat; omega
  | true => simp at hNat; omega

theorem immediate_pos (hImm : imm12 ≠ 0) : 0 < immediate (.ofNat imm12.toNat) sh := by
  have hBound := imm12.isLt
  have hNe : imm12.toNat ≠ 0 := fun h => hImm (BitVec.eq_of_toNat_eq h)
  have hField : (UInt16.ofNat imm12.toNat).toNat = imm12.toNat := by
    rw [UInt16.toNat_ofNat']
    omega
  rw [immediate, hField]
  cases sh <;> simp <;> omega

/-- The full register does not borrow where its low half does. -/
theorem borrow_shows (hRn : rn ≠ 31) (hImm : imm12 ≠ 0) :
    ∃ regs : Registers, regs.pc = 0 ∧ ¬SameAddSub false true true sh imm12 rn rd regs := by
  refine ⟨Registers.new.put (.ofNat rn.toNat) 0x100000000, Registers.put_pc .., fun hSame => ?_⟩
  have hGeneral : (UInt8.ofNat rn.toNat).toNat ≤ 30 := by
    have hLt := rn.isLt
    have hNe : rn.toNat ≠ 31 := fun h => hRn (BitVec.eq_of_toNat_eq h)
    rw [toNat_index]
    omega
  have hValue := Registers.value_put_self Registers.new hGeneral 0x100000000
  have hNat : (immOperand (.ofNat imm12.toNat) sh).toNat = immediate (.ofNat imm12.toNat) sh :=
    immOperand_toNat _ _
  have hLt := immediate_lt (.ofNat imm12.toNat) sh
  have hPos : 0 < immediate (.ofNat imm12.toNat) sh := immediate_pos hImm
  generalize hRegs : Registers.new.put (.ofNat rn.toNat) 0x100000000 = regs at hSame hValue
  have hCode : (effect regs (.addSubImmediate false true true (.ofNat rd.toNat) (.ofNat rn.toNat)
      (.ofNat imm12.toNat) sh)).arch.flags.c =
        decide (regs.value (.ofNat rn.toNat) ≥ immOperand (.ofNat imm12.toNat) sh) := rfl
  have hReference : (A64.addSub 32 true true sh imm12 rn rd regs.arch).flags.c =
      (addSubResult true (low32 (regs.value (.ofNat rn.toNat)))
        (low32 (immOperand (.ofNat imm12.toNat) sh))).2.c := by
    simp only [A64.addSub, A64.State.generalOrSp, if_neg hRn, arch_general,
      operand_arch sh imm12 (Nat.le_refl 32)]
    rfl
  have hFlags := congrArg (fun state => state.flags.c) hSame
  have hLow : (low32 0x100000000).toNat = 0 := rfl
  have hBorrow : (low32 0x100000000).toNat < (immOperand (.ofNat imm12.toNat) sh).toNat := by
    omega
  have hHigh : immOperand (.ofNat imm12.toNat) sh ≤ 0x100000000 := by
    rw [UInt64.le_iff_toNat_le, hNat, show (0x100000000 : UInt64).toNat = 2 ^ 32 from rfl]
    omega
  have hNoBorrow := hReference.symm.trans (hFlags.trans hCode)
  rw [hValue, decide_eq_true hHigh, addSubResult_borrow (by omega) hBorrow] at hNoBorrow
  cases hNoBorrow

/-- Where the stack pointer takes part, or a 32-bit SUBS can borrow, there are registers
on which the machines differ. -/
theorem addSub_differs
    (h : (rn = 31 ∨ rd = 31 ∧ s = false) ∧
      ¬(sf = true ∧ s = false ∧ imm12 = 0 ∧ rn = 31 ∧ rd = 31) ∨
      sf = false ∧ op = true ∧ s = true ∧ imm12 ≠ 0) :
    ∃ regs : Registers, regs.pc = 0 ∧ ¬SameAddSub sf op s sh imm12 rn rd regs := by
  have hPos : 0 < if sf then 64 else 32 := by cases sf <;> decide
  have hWidth : (if sf then 64 else 32) ≤ 64 := by cases sf <;> decide
  by_contra hNone
  have hStack (sp : BitVec 64) : SameAddSub sf op s sh imm12 rn rd (stackOnly sp) :=
    not_not.mp fun hNot => hNone ⟨stackOnly sp, rfl, hNot⟩
  by_cases hRn : rn = 31
  · subst hRn
    by_cases hRd : rd = 31
    · subst hRd
      cases s with
      | true => exact source_shows_in_flags hPos hWidth _ hStack
      | false =>
          cases sf with
          | false => exact narrow_shows _ hStack
          | true =>
              have hImm : imm12 ≠ 0 := by simpa using h
              exact wide_shows _ hImm hStack
    · exact source_shows_in_register hPos hWidth hRd _ hStack
  · rcases h with ⟨hNames, -⟩ | ⟨rfl, rfl, rfl, hImm⟩
    · obtain ⟨rfl, rfl⟩ := hNames.resolve_left hRn
      exact destination_shows _ hRn hStack
    · exact hNone (borrow_shows hRn hImm)

/-- Everywhere else they agree. -/
theorem addSub_same (regs : Registers)
    (hSp : rn = 31 ∨ rd = 31 ∧ s = false →
      sf = true ∧ s = false ∧ imm12 = 0 ∧ rn = 31 ∧ rd = 31)
    (hNarrow : ¬(sf = false ∧ op = true ∧ s = true ∧ imm12 ≠ 0)) :
    SameAddSub sf op s sh imm12 rn rd regs := by
  by_cases hNames : rn = 31 ∨ rd = 31 ∧ s = false
  · -- The instruction moves SP to itself.
    obtain ⟨rfl, rfl, rfl, rfl, rfl⟩ := hSp hNames
    have hOperand : referenceOperand 64 sh 0 = 0 := by cases sh <;> rfl
    have hResult : (referenceResult 64 op sh 0 regs.arch.sp).setWidth 64 = regs.arch.sp := by
      rw [BitVec.setWidth_eq, referenceResult, hOperand, BitVec.addSubResult_value op (by decide)]
      cases op <;> simp
    have hReference : A64.addSub 64 op false sh 0 31 31 regs.arch =
        { regs.arch with sp := (referenceResult 64 op sh 0 regs.arch.sp).setWidth 64 } := rfl
    exact hReference.trans (by rw [hResult]; rfl)
  · obtain ⟨hRn, hRd⟩ := not_or.mp hNames
    refine effect_addSub regs sf op s sh imm12 rn rd hRn (fun h => ?_) ?_
    · exact (Bool.not_eq_false _).mp fun hFlags => hRd ⟨h, hFlags⟩
    · rintro rfl ⟨rfl, rfl, -, hBorrow⟩
      refine hNarrow ⟨rfl, rfl, rfl, ?_⟩
      rintro rfl
      rw [immOperand_toNat] at hBorrow
      cases sh <;> exact absurd hBorrow (Nat.not_lt_zero _)

end Differs

section Words

variable {word : UInt32}

/-- The words on which the machines differ in some state. -/
def Misexecuted (word : UInt32) : Prop :=
  Unallocated word ∨ MatchesAddSub word ∧ (NamesSp word ∧ ¬KeepsSp word ∨ NarrowSubs word)

theorem bit_eq_zero_iff (low : Nat) :
    bits word low low = 0 ↔ word.toBitVec.getLsbD low = false := by
  have hNat := getLsbD_toNat word low
  have hBits : bits word low low = word.toNat / 2 ^ low % 2 := by
    rw [bits, show low + 1 - low = 1 by omega, Nat.pow_one]
  rw [hBits, ← hNat]
  cases word.toBitVec.getLsbD low <;> decide

theorem bit_eq_one_iff (low : Nat) :
    bits word low low = 1 ↔ word.toBitVec.getLsbD low = true := by
  have hNat := getLsbD_toNat word low
  have hBits : bits word low low = word.toNat / 2 ^ low % 2 := by
    rw [bits, show low + 1 - low = 1 by omega, Nat.pow_one]
  rw [hBits, ← hNat]
  cases word.toBitVec.getLsbD low <;> decide

/-- Naming SP as source, or as destination without S, read off the fields of the word. -/
theorem namesSp_iff : NamesSp word ↔ word.toBitVec.extractLsb' 5 5 = 31 ∨
    word.toBitVec.extractLsb' 0 5 = 31 ∧ word.toBitVec.getLsbD 29 = false := by
  have hRn : word.toBitVec.extractLsb' 5 5 = 31 ↔ bits word 9 5 = 31 := extract_eq_iff word _
  have hRd : word.toBitVec.extractLsb' 0 5 = 31 ↔ bits word 4 0 = 31 := extract_eq_iff word _
  rw [NamesSp, bit_eq_zero_iff, hRn, hRd]

/-- The words that name SP on both sides and add nothing. -/
theorem keepsSp_iff : KeepsSp word ↔ word.toBitVec.getLsbD 31 = true ∧
    word.toBitVec.getLsbD 29 = false ∧ word.toBitVec.extractLsb' 10 12 = 0 ∧
    word.toBitVec.extractLsb' 5 5 = 31 ∧ word.toBitVec.extractLsb' 0 5 = 31 := by
  have hImm : word.toBitVec.extractLsb' 10 12 = 0 ↔ bits word 21 10 = 0 := extract_eq_iff word _
  have hRn : word.toBitVec.extractLsb' 5 5 = 31 ↔ bits word 9 5 = 31 := extract_eq_iff word _
  have hRd : word.toBitVec.extractLsb' 0 5 = 31 ↔ bits word 4 0 = 31 := extract_eq_iff word _
  rw [KeepsSp, bit_eq_one_iff, bit_eq_zero_iff, hImm, hRn, hRd]

/-- The narrow SUBS with an immediate that is not zero. A zero immediate cannot borrow. -/
theorem narrowSubs_iff : NarrowSubs word ↔ word.toBitVec.getLsbD 31 = false ∧
    word.toBitVec.getLsbD 30 = true ∧ word.toBitVec.getLsbD 29 = true ∧
    word.toBitVec.extractLsb' 10 12 ≠ 0 := by
  have hImm : word.toBitVec.extractLsb' 10 12 = 0 ↔ bits word 21 10 = 0 := extract_eq_iff word _
  have hBoth : bits word 30 29 = 0b11 ↔ bits word 30 30 = 1 ∧ bits word 29 29 = 1 := by
    show word.toNat / 536870912 % 4 = 3 ↔
      word.toNat / 1073741824 % 2 = 1 ∧ word.toNat / 536870912 % 2 = 1
    omega
  rw [NarrowSubs, bit_eq_zero_iff, hBoth, bit_eq_one_iff, bit_eq_one_iff, Ne, Ne, hImm, and_assoc]

/-- A CPU with the word in its memory and the given registers. -/
def Cpu.onWordWith (word : UInt32) (regs : Registers) : Cpu := ⟨regs, (Cpu.onWord word).mem, false⟩

theorem word?_onWord (word : UInt32) : (Cpu.onWord word).mem.word? 0 = some word := by
  have hLength : (Cpu.onWord word).mem.bytes = toLeBytes word := rfl
  rw [Memory.word?_eq_some (by rw [hLength, toLeBytes_length]), hLength, List.drop_zero,
    List.take_of_length_le (toLeBytes_length word).le, fromLeBytes_toLeBytes]

/-- A conforming word has the reference machine's effect on all registers. -/
theorem Conforms.execute_eq (h : Conforms word) {inst : Instruction}
    (hDecode : decode word = .ok inst) (hHlt : inst.isHlt = false) {regs : Registers}
    (hPc : regs.pc = 0) :
    A64.execute word.toBitVec regs.arch = some (effect regs inst).arch := by
  have hWord : (Cpu.onWordWith word regs).mem.word? (Cpu.onWordWith word regs).regs.pc.toNat =
      some word := by
    rw [Cpu.onWordWith, hPc]
    exact word?_onWord word
  obtain ⟨next, hStep, -, -, hReference⟩ := h (Cpu.onWordWith word regs) rfl hWord
  rw [Cpu.step_of_decode hWord hDecode] at hStep
  simp only [Cpu.onWordWith, hHlt, Bool.or_self, Bool.false_eq_true, if_false, Except.ok.injEq,
    Prod.mk.injEq, true_and] at hStep
  subst hStep
  rw [Cpu.reference_step hWord] at hReference
  obtain ⟨state, hState, hMoved⟩ := Option.map_eq_some_iff.mp hReference
  have hStatePc : state.pc = (effect regs inst).arch.pc := by
    rw [A64.execute_pc hState]
    exact congrArg UInt64.toBitVec (effect_pc regs inst).symm
  refine hState.trans (congrArg some ?_)
  calc state
      = { { state with pc := regs.arch.pc + 4 } with pc := state.pc } := rfl
    _ = { (effect regs inst).arch with pc := state.pc } :=
        congrArg (fun next => { next with pc := state.pc }) hMoved
    _ = (effect regs inst).arch := by rw [hStatePc]

/-- The decoded ADD or SUB behaves as the reference machine's on all registers. -/
theorem Conforms.sameAddSub (h : Conforms word) (hClass : A64.IsAddSub word.toBitVec)
    {regs : Registers} (hPc : regs.pc = 0) :
    SameAddSub (word.toBitVec.getLsbD 31) (word.toBitVec.getLsbD 30) (word.toBitVec.getLsbD 29)
      (word.toBitVec.getLsbD 22) (word.toBitVec.extractLsb' 10 12) (word.toBitVec.extractLsb' 5 5)
      (word.toBitVec.extractLsb' 0 5) regs := by
  have hEffect := h.execute_eq (decode_addSub word hClass) rfl hPc
  rw [A64.execute, if_pos hClass, A64.width] at hEffect
  exact Option.some.inj hEffect

/-- On an unallocated word the reference is undefined, where the simulator goes on. So such a
word does not conform, by any state. -/
theorem Conforms.not_unallocated (h : Conforms word) : ¬Unallocated word := by
  intro hUnallocated
  obtain ⟨inst, hDecode, hHlt⟩ := hUnallocated.decode_eq_ok
  have hPc : Registers.new.pc = 0 := rfl
  have hEffect := h.execute_eq hDecode hHlt hPc
  rw [execute_of_unallocated hUnallocated] at hEffect
  cases hEffect

/-- Each kind of misexecuted word has a state that tells the two machines apart. It is found
in the registers alone: the memory holds the word and no more. -/
theorem Conforms.not_misexecuted (h : Conforms word) : ¬Misexecuted word := by
  rintro (hUnallocated | ⟨hMatches, hDiffers⟩)
  · exact h.not_unallocated hUnallocated
  · have hClass : A64.IsAddSub word.toBitVec :=
      not_not.mp fun hNot => h.not_unallocated (unallocated_iff.mpr (Or.inl ⟨hMatches, hNot⟩))
    rw [namesSp_iff, keepsSp_iff, narrowSubs_iff] at hDiffers
    obtain ⟨regs, hPc, hNot⟩ := addSub_differs hDiffers
    exact hNot (h.sameAddSub hClass hPc)

theorem matches_of_decode {sf op s shift : Bool} {rd rn : UInt8} {imm12 : UInt16}
    (h : decode word = .ok (.addSubImmediate sf op s rd rn imm12 shift)) : MatchesAddSub word := by
  rw [← addSub_test]
  unfold decode at h
  split_ifs at h with hHlt hAddSub hMovWide
  · cases h
  · exact hAddSub
  · cases h

/-- On the registers of a state, a word that is not listed has the reference machine's
effect. -/
theorem execute_of_not_misexecuted (hWell : ¬Misexecuted word) {inst : Instruction}
    (hDecode : decode word = .ok inst) (hHlt : inst.isHlt = false) (regs : Registers) :
    A64.execute word.toBitVec regs.arch = some (effect regs inst).arch := by
  obtain ⟨hAllocated, hAddSub⟩ := not_or.mp hWell
  by_cases hClass : A64.IsAddSub word.toBitVec
  · obtain rfl := Except.ok.inj ((decode_addSub word hClass).symm.trans hDecode)
    have hMatches := ((isAddSub_iff word).mp hClass).1
    obtain ⟨hSp, hNarrow⟩ := not_or.mp fun h => hAddSub ⟨hMatches, h⟩
    rw [namesSp_iff, keepsSp_iff, not_and_not_right] at hSp
    rw [narrowSubs_iff] at hNarrow
    rw [A64.execute, if_pos hClass, A64.width]
    exact congrArg some (addSub_same regs hSp hNarrow)
  · refine execute_of_decode hDecode hHlt hAllocated fun hDeparts => ?_
    cases inst with
    | addSubImmediate sf op s rd rn imm12 shift =>
        exact hAllocated (unallocated_iff.mpr (Or.inl ⟨matches_of_decode hDecode, hClass⟩))
    | movWideImmediate => exact hDeparts
    | hlt => exact hDeparts

/-- A word of no covered class is refused or is a HLT, and leaves the registers and the memory.
Whether the architecture has an instruction there is not asked. -/
theorem standsStill_of_not_covered (h : ¬Covered word) : StandsStill word := by
  intro cpu hRunning hWord
  obtain ⟨hAddSub, hMovWide⟩ := not_or.mp h
  by_cases hPattern : MatchesHlt word
  · have hDecode : decode word = .ok (.hlt _) :=
      (decode_hlt_iff word _).mpr ⟨(hlt_test word).mpr hPattern, rfl⟩
    have hStep := Cpu.step_of_decode hWord hDecode
    simp only [Instruction.isHlt, Bool.or_true, if_true] at hStep
    exact ⟨_, _, hStep, rfl, rfl, fun _ => ⟨rfl, rfl⟩, fun hNone => absurd hPattern hNone⟩
  · have hDecode := (decode_unknownOpcode word).mpr ⟨hAddSub, hMovWide, hPattern⟩
    have hSite : cpu.site = .undecodable word := by
      simp only [Cpu.site, Memory.site, hWord, hDecode]
    have hStep := cpu.step_eq
    rw [hSite] at hStep
    exact ⟨_, _, hStep, rfl, rfl, fun hHlt => absurd hHlt hPattern, fun _ => ⟨rfl, hRunning⟩⟩

/-- Conformance asks for a step of the reference, which there is in two classes only. -/
theorem Conforms.covered (h : Conforms word) : Covered word := by
  by_contra hNone
  have hWord := word?_onWord word
  obtain ⟨next, hStep, -⟩ := h (Cpu.onWord word) rfl hWord
  obtain ⟨e, final, hError, -⟩ := standsStill_of_not_covered hNone (Cpu.onWord word) rfl hWord
  rw [hStep] at hError
  cases hError

/-- On the two classes, decoder, executor and step are the architecture's on exactly the
words that are not listed: unallocated words, ADD and SUB with the stack pointer, and
the 32-bit SUBS. At every other word a step executes nothing. -/
theorem conforms_iff (word : UInt32) :
    (Conforms word ↔ Covered word ∧ ¬Misexecuted word) ∧ (¬Covered word → StandsStill word) := by
  refine ⟨⟨fun h => ⟨h.covered, h.not_misexecuted⟩, ?_⟩, standsStill_of_not_covered⟩
  rintro ⟨hCovered, hWell⟩ cpu hRunning hWord
  obtain ⟨inst, hDecode, hHlt⟩ := decode_eq_ok_of_matches hCovered
  have hSite : cpu.site = .instruction inst := Memory.site_of_decode hWord hDecode
  have hStep := Cpu.runTurn_again (Cpu.runTurn_at_instruction hRunning hSite hHlt)
  refine ⟨_, hStep, rfl, rfl, ?_⟩
  rw [Cpu.reference_step hWord, execute_of_not_misexecuted hWell hDecode hHlt cpu.regs]
  rfl

end Words

end Simulator
