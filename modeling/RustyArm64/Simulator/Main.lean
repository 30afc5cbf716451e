import RustyArm64.Simulator.Dump
import RustyArm64.Simulator.EndToEnd
import RustyArm64.Simulator.FileType
import RustyArm64.Simulator.Safety

/-! The command line program: read a file, load it, run it, print the registers. The
file system and the ELF parser are parameters. Arguments are Unicode and the output
streams take all that is printed: the panics of `env::args` on other arguments and of
`println!` on a closed stream are left out. -/
namespace Simulator

/-- `Display` of the CPU errors. -/
def CpuError.display : CpuError → String
  | .halt => "CPU halted"
  | .unknownInstruction word => "unknown instruction: 0x" ++ padded upperHex 8 word.toNat
  | .memoryFault addr => "memory fault at address 0x" ++ padded upperHex 16 addr.toNat

/-- `Display` of the loader errors. -/
def LoaderError.display : LoaderError → String
  | .notElf => "not a valid ELF file"
  | .truncated => "ELF file truncated or contains invalid data"
  | .unsupportedArch => "ELF is not a 64-bit little-endian AArch64 executable"
  | .noLoadableSegments => "ELF has no loadable segments"
  | .segmentDataOutOfBounds => "segment file data out of bounds"

/-- What a process leaves behind. -/
structure Process where
  stdout : String
  stderr : String
  exitCode : Nat
  deriving DecidableEq, Repr

/-- The outside of the program. -/
structure Environment (ParseError IoError : Type) where
  /-- `Elf::parse`. -/
  parse : Bytes → Except ParseError Elf
  /-- `fs::read`. -/
  readFile : String → Except IoError Bytes
  /-- `Display` of the error of a read. -/
  ioMessage : IoError → String

/-- `args[index]`. -/
def argument (args : List String) (index : Nat) : Outcome String :=
  match args[index]? with
  | some arg => .ok arg
  | none => .error .indexRange

/-- The text that `print_registers` prints. -/
def Cpu.printRegisters (cpu : Cpu) : Outcome String := do
  return (← cpu.regs.dump) ++ "\n"

/-- 16 MiB. -/
def memSize : UInt64 := 16 * 1024 * 1024

section Program

variable {ParseError IoError : Type} (env : Environment ParseError IoError)

/-- The end of the program, after the run. -/
def reportRun : Except CpuError Unit × Cpu → Outcome Process
  | (.ok (), cpu) => do
    return ⟨"\nProgram halted successfully.\n\n" ++ (← cpu.printRegisters), "", 0⟩
  | (.error e, cpu) => do
    return ⟨← cpu.printRegisters, "\nCPU error: " ++ e.display ++ "\n\n", 1⟩

/-- The program, for arguments that are Unicode and streams that can be written. -/
def main (args : List String) : Outcome Process := do
  if args.length ≠ 2 then
    return ⟨"", "Usage: " ++ (← argument args 0) ++ " <ELF file>\n", 1⟩
  else
    let elfPath ← argument args 1
    match env.readFile elfPath with
    | .error e => return ⟨"", "Error reading " ++ elfPath ++ ": " ++ env.ioMessage e ++ "\n", 1⟩
    | .ok elfBytes =>
      let memory := Memory.new memSize
      match ← loadElf env.parse memory elfBytes with
      | (.error e, _) => return ⟨"", "Error loading ELF: " ++ e.display ++ "\n", 1⟩
      | (.ok entryPoint, memory) =>
        let cpu := (Cpu.new memory).writePc entryPoint
        reportRun (← cpu.run)

end Program

/-- The byte that a loaded file leaves at an address of a zeroed memory. -/
def Elf.imageByte (elf : Elf) (file : List UInt8) (a : Nat) : UInt8 :=
  match elf.programHeaders.reverse.find? (·.covers a) with
  | some phdr => (phdr.byteAt? file a).getD 0
  | none => 0

/-- The memory after a load into a zeroed memory, address by address. -/
def Elf.image (elf : Elf) (file : List UInt8) (size : UInt64) : Memory :=
  ⟨⟨(List.range size.toNat).map (elf.imageByte file), by simpa using size.toNat_lt⟩⟩

/-- The image by address: which segment, if any, a byte of the loaded memory comes from. -/
theorem Elf.bytes_image (elf : Elf) (file : List UInt8) (size : UInt64) :
    (elf.image file size).bytes = (List.range size.toNat).map (elf.imageByte file) := rfl

/-- The headers in bounds leave the image. -/
theorem foldl_apply_eq_image {elf : Elf} {file : List UInt8} {size : UInt64}
    (hBounds : ∀ phdr ∈ elf.programHeaders, phdr.isLoad = true →
      phdr.InBounds file.length size.toNat) :
    elf.programHeaders.foldl (ProgramHeader.apply file) (Memory.new size) =
      elf.image file size := by
  have hSize : (Memory.new size).bytes.length = size.toNat := by simp
  have hLength := ProgramHeader.foldl_apply_length elf.programHeaders file (Memory.new size)
  rw [hSize] at hLength
  rw [← hSize] at hBounds
  apply Memory.ext
  rw [Elf.bytes_image]
  apply List.ext_getElem?
  intro a
  by_cases ha : a < size.toNat
  · have hByte := ProgramHeader.getElem?_foldl_apply hBounds a
    have hSome := List.getElem?_eq_getElem (hLength.symm ▸ ha)
    rw [List.getElem?_map, List.getElem?_range ha, Option.map_some, Elf.imageByte]
    cases hFind : elf.programHeaders.reverse.find? (·.covers a) with
    | none =>
        rw [hByte, hFind]
        simp [ha]
    | some phdr =>
        rw [hFind] at hByte
        dsimp only at hByte ⊢
        rw [hByte] at hSome
        rw [hByte, hSome]
        rfl
  · rw [List.getElem?_eq_none (by omega), List.getElem?_eq_none (by simpa using ha)]

/-- The file is loaded into a zeroed memory of the given size. -/
structure Loadable {ParseError : Type} (parse : Bytes → Except ParseError Elf) (file : Bytes)
    (elf : Elf) (size : UInt64) : Prop where
  identified : PassesIdentification file
  parsed : parse file = .ok elf
  machine : elf.eMachine = emAarch64
  segment : ∃ phdr ∈ elf.programHeaders, phdr.pType = ptLoad ∧ (phdr.pFilesz ≠ 0 ∨ phdr.pMemsz ≠ 0)
  inBounds : ∀ phdr ∈ elf.programHeaders, phdr.pType = ptLoad →
    phdr.InBounds file.toList.length size.toNat

section Load

variable {ParseError : Type} {parse : Bytes → Except ParseError Elf} {file : Bytes} {size : UInt64}

/-- A loadable file is loaded into the memory that `main` allocates, and gives its entry. -/
theorem Loadable.loadElf {elf : Elf} (h : Loadable parse file elf size) :
    Simulator.loadElf parse (Memory.new size) file =
      .ok (.ok elf.eEntry, elf.image file.toList size) := by
  have hBounds : ∀ phdr ∈ elf.programHeaders, phdr.isLoad = true →
      phdr.InBounds file.toList.length size.toNat :=
    fun phdr hMem hLoad => h.inBounds phdr hMem (phdr.isLoad_iff.mp hLoad)
  have hSize : (Memory.new size).bytes.length = size.toNat := by simp
  rw [loadElf_in_bounds h.identified h.parsed h.machine (by rw [hSize]; exact hBounds),
    foldl_apply_eq_image hBounds, if_pos ((any_load_iff _).mpr h.segment)]

/-- A load into a zeroed memory succeeds for the loadable files only. -/
theorem loadElf_ok_iff {entry : UInt64} {memory : Memory} :
    loadElf parse (Memory.new size) file = .ok (.ok entry, memory) ↔
      ∃ elf, Loadable parse file elf size ∧ entry = elf.eEntry ∧
        memory = elf.image file.toList size := by
  constructor
  · intro hLoad
    obtain ⟨hIdent, elf, hParse, hMachine⟩ := checks_of_accepted hLoad
    have hSize : (Memory.new size).bytes.length = size.toNat := by simp
    obtain ⟨result, final, hLoad', hCases⟩ :=
      loadElf_passed hIdent hParse hMachine (Memory.new size)
    rw [hLoad] at hLoad'
    cases hLoad'
    rcases hCases with ⟨⟨hSegment, hBounds⟩, -⟩ | ⟨-, e, -, hError⟩
    · rw [hSize] at hBounds
      have hLoadable : Loadable parse file elf size := ⟨hIdent, hParse, hMachine, hSegment, hBounds⟩
      have hSame := hLoadable.loadElf
      rw [hLoad] at hSame
      cases hSame
      exact ⟨elf, hLoadable, rfl, rfl⟩
    · cases hError
  · rintro ⟨elf, hLoadable, rfl, rfl⟩
    exact hLoadable.loadElf

/-- The files that are turned down, with the error. -/
inductive LoadFails (parse : Bytes → Except ParseError Elf) (file : Bytes) (size : UInt64) :
    LoaderError → Prop where
  | short (hShort : file.toList.length < 20) : LoadFails parse file size .truncated
  | magic (hSize : 20 ≤ file.toList.length)
      (hMagic : file.toList.take 4 ≠ [0x7F, 0x45, 0x4C, 0x46]) : LoadFails parse file size .notElf
  | identification (hSize : 20 ≤ file.toList.length)
      (hMagic : file.toList.take 4 = [0x7F, 0x45, 0x4C, 0x46])
      (hIdent : ¬PassesIdentification file) : LoadFails parse file size .unsupportedArch
  | parse (e : ParseError) (hIdent : PassesIdentification file) (hParse : parse file = .error e) :
      LoadFails parse file size .notElf
  | machine (elf : Elf) (hIdent : PassesIdentification file) (hParse : parse file = .ok elf)
      (hMachine : elf.eMachine ≠ emAarch64) : LoadFails parse file size .unsupportedArch
  | outOfBounds (elf : Elf) (hIdent : PassesIdentification file) (hParse : parse file = .ok elf)
      (hMachine : elf.eMachine = emAarch64)
      (hBad : ∃ phdr ∈ elf.programHeaders, phdr.pType = ptLoad ∧
        ¬phdr.InBounds file.toList.length size.toNat) :
      LoadFails parse file size .segmentDataOutOfBounds
  | nothing (elf : Elf) (hIdent : PassesIdentification file) (hParse : parse file = .ok elf)
      (hMachine : elf.eMachine = emAarch64)
      (hBounds : ∀ phdr ∈ elf.programHeaders, phdr.pType = ptLoad →
        phdr.InBounds file.toList.length size.toNat)
      (hNothing : ¬∃ phdr ∈ elf.programHeaders, phdr.pType = ptLoad ∧
        (phdr.pFilesz ≠ 0 ∨ phdr.pMemsz ≠ 0)) :
      LoadFails parse file size .noLoadableSegments

/-- A file is loadable or turned down. -/
theorem loadable_or_fails (parse : Bytes → Except ParseError Elf) (file : Bytes) (size : UInt64) :
    (∃ elf, Loadable parse file elf size) ∨ ∃ e, LoadFails parse file size e := by
  by_cases hIdent : PassesIdentification file
  · cases hParse : parse file with
    | error e => exact Or.inr ⟨_, .parse e hIdent hParse⟩
    | ok elf =>
        by_cases hMachine : elf.eMachine = emAarch64
        · by_cases hBounds : ∀ phdr ∈ elf.programHeaders, phdr.pType = ptLoad →
              phdr.InBounds file.toList.length size.toNat
          · by_cases hSegment : ∃ phdr ∈ elf.programHeaders, phdr.pType = ptLoad ∧
                (phdr.pFilesz ≠ 0 ∨ phdr.pMemsz ≠ 0)
            · exact Or.inl ⟨elf, hIdent, hParse, hMachine, hSegment, hBounds⟩
            · exact Or.inr ⟨_, .nothing elf hIdent hParse hMachine hBounds hSegment⟩
          · refine Or.inr ⟨_, .outOfBounds elf hIdent hParse hMachine ?_⟩
            simpa only [not_forall, exists_prop] using hBounds
        · exact Or.inr ⟨_, .machine elf hIdent hParse hMachine⟩
  · by_cases hSize : 20 ≤ file.toList.length
    · by_cases hMagic : file.toList.take 4 = [0x7F, 0x45, 0x4C, 0x46]
      · exact Or.inr ⟨_, .identification hSize hMagic hIdent⟩
      · exact Or.inr ⟨_, .magic hSize hMagic⟩
    · exact Or.inr ⟨_, .short (Nat.lt_of_not_le hSize)⟩

theorem LoadFails.loadElf {e : LoaderError} (h : LoadFails parse file size e) :
    ∃ final, Simulator.loadElf parse (Memory.new size) file = .ok (.error e, final) := by
  have hLength : (Memory.new size).bytes.length = size.toNat := by simp
  cases h with
  | short hShort =>
      exact ⟨_, loadElf_of_check_error parse _ file (by rw [checkIdentification_eq, if_pos hShort])⟩
  | magic hSize hMagic =>
      exact ⟨_, loadElf_of_check_error parse _ file (by
        rw [checkIdentification_eq, if_neg (Nat.not_lt_of_le hSize), if_pos hMagic])⟩
  | identification hSize hMagic hIdent => exact ⟨_, loadElf_other_class hSize hMagic hIdent _⟩
  | parse e hIdent hParse =>
      refine ⟨Memory.new size, ?_⟩
      rw [Simulator.loadElf, checkIdentification_ok hIdent, Outcome.ok_bind]
      simp only [hParse, Outcome.pure_eq]
  | machine elf hIdent hParse hMachine =>
      exact ⟨_, loadElf_of_other_machine parse _ file hIdent hParse hMachine⟩
  | outOfBounds elf hIdent hParse hMachine hBad =>
      obtain ⟨phdr, hMem, hType, hOut⟩ := hBad
      obtain ⟨final, -, -, -, hLoad, -⟩ := loadElf_out_of_bounds hIdent hParse hMachine
        ⟨phdr, hMem, phdr.isLoad_iff.mpr hType, hLength.symm ▸ hOut⟩
      exact ⟨final, hLoad⟩
  | nothing elf hIdent hParse hMachine hBounds hNothing =>
      have hFits : ∀ phdr ∈ elf.programHeaders, phdr.isLoad = true →
          phdr.InBounds file.toList.length (Memory.new size).bytes.length := by
        rw [hLength]
        exact fun phdr hMem hLoad => hBounds phdr hMem (phdr.isLoad_iff.mp hLoad)
      have hLoad := loadElf_in_bounds hIdent hParse hMachine hFits
      rw [if_neg (fun hAny => hNothing ((any_load_iff _).mp hAny))] at hLoad
      exact ⟨_, hLoad⟩

end Load

section Reports

variable {ParseError IoError : Type} {env : Environment ParseError IoError}

/-- The registers after a program that was entered with zeroed registers. -/
def finalRegisters (entry : UInt64) (program : List Instruction) : Registers :=
  (program.foldl effect Registers.new).writePc (entry + UInt64.ofNat (4 * program.length))

/-- The program at the entry point of a loaded file, up to the first word that a run
does not get past. -/
structure Runs (env : Environment ParseError IoError) (file : Bytes) (elf : Elf)
    (program : List Instruction) : Prop where
  loadable : Loadable env.parse file elf memSize
  holds : (elf.image file.toList memSize).Holds elf.eEntry.toNat program
  stops : ((elf.image file.toList memSize).site (elf.eEntry.toNat + 4 * program.length)).stops =
    true

/-- What the run of a loaded program returns. -/
def runOutcome (elf : Elf) (file : Bytes) (program : List Instruction) : Except CpuError Unit :=
  ((elf.image file.toList memSize).site (elf.eEntry.toNat + 4 * program.length)).outcome
    (finalRegisters elf.eEntry program).pc

/-- What the program prints, and its exit code. -/
inductive Reports (env : Environment ParseError IoError) : List String → Process → Prop where
  | usage (name : String) (rest : List String) (hCount : rest.length ≠ 1) :
      Reports env (name :: rest) ⟨"", "Usage: " ++ name ++ " <ELF file>\n", 1⟩
  | unreadable (name path : String) (e : IoError) (hRead : env.readFile path = .error e) :
      Reports env [name, path]
        ⟨"", "Error reading " ++ path ++ ": " ++ env.ioMessage e ++ "\n", 1⟩
  | unloadable (name path : String) (file : Bytes) (e : LoaderError)
      (hRead : env.readFile path = .ok file) (hFails : LoadFails env.parse file memSize e) :
      Reports env [name, path] ⟨"", "Error loading ELF: " ++ e.display ++ "\n", 1⟩
  | faults (name path text : String) (file : Bytes) (elf : Elf) (program : List Instruction)
      (e : CpuError) (hRead : env.readFile path = .ok file) (hRuns : Runs env file elf program)
      (hOutcome : runOutcome elf file program = .error e)
      (hText : Registers.readDump text = some (finalRegisters elf.eEntry program)) :
      Reports env [name, path] ⟨text ++ "\n", "\nCPU error: " ++ e.display ++ "\n\n", 1⟩
  | halts (name path text : String) (file : Bytes) (elf : Elf) (program : List Instruction)
      (hRead : env.readFile path = .ok file) (hRuns : Runs env file elf program)
      (hOutcome : runOutcome elf file program = .ok ())
      (hText : Registers.readDump text = some (finalRegisters elf.eEntry program)) :
      Reports env [name, path]
        ⟨"\nProgram halted successfully.\n\n" ++ (text ++ "\n"), "", 0⟩

/-- The run of a loaded program ends in its final registers. -/
theorem Runs.run {file : Bytes} {elf : Elf} {program : List Instruction}
    (h : Runs env file elf program) :
    ∃ cpu, ((Cpu.new (elf.image file.toList memSize)).writePc elf.eEntry).run =
      .ok (runOutcome elf file program, cpu) ∧ cpu.regs = finalRegisters elf.eEntry program := by
  have hFinal : (((Cpu.new (elf.image file.toList memSize)).writePc elf.eEntry).finish
      program).regs = finalRegisters elf.eEntry program := by
    rw [Cpu.finish, Cpu.writePc, foldl_effect_writePc]
    rfl
  have hRun := Cpu.run_program program
    ((Cpu.new (elf.image file.toList memSize)).writePc elf.eEntry) rfl h.holds h.stops
  refine ⟨_, hRun.trans ?_, hFinal⟩
  rw [hFinal]
  rfl

/-- A loadable file runs some straight program, possibly the empty one. -/
theorem exists_runs {file : Bytes} {elf : Elf} (h : Loadable env.parse file elf memSize) :
    ∃ program, Runs env file elf program := by
  obtain ⟨program, hHolds, hStops⟩ :=
    (elf.image file.toList memSize).exists_program elf.eEntry.toNat
  exact ⟨program, h, hHolds, hStops⟩

theorem exists_dump (regs : Registers) : ∃ text, Registers.readDump text = some regs :=
  ⟨_, (Registers.readDump_iff _ _).mpr regs.dump_eq⟩

/-- Some report fits every start with at least one argument. -/
theorem exists_report (env : Environment ParseError IoError) {args : List String}
    (hArgs : args ≠ []) :
    ∃ process, Reports env args process := by
  rcases args with _ | ⟨name, rest⟩
  · exact (hArgs rfl).elim
  by_cases hCount : rest.length = 1
  · obtain ⟨path, rfl⟩ := List.length_eq_one_iff.mp hCount
    cases hRead : env.readFile path with
    | error e => exact ⟨_, .unreadable name path e hRead⟩
    | ok file =>
        rcases loadable_or_fails env.parse file memSize with ⟨elf, hLoadable⟩ | ⟨e, hFails⟩
        · obtain ⟨program, hRuns⟩ := exists_runs hLoadable
          obtain ⟨text, hText⟩ := exists_dump (finalRegisters elf.eEntry program)
          cases hOutcome : runOutcome elf file program with
          | ok done => exact ⟨_, .halts name path text file elf program hRead hRuns hOutcome hText⟩
          | error e =>
              exact ⟨_, .faults name path text file elf program e hRead hRuns hOutcome hText⟩
        · exact ⟨_, .unloadable name path file e hRead hFails⟩
  · exact ⟨_, .usage name rest hCount⟩

section File

variable (name : String) {path : String} {file : Bytes} (hRead : env.readFile path = .ok file)
include hRead

/-- Past the reading of the file, `main` is the load, the run and the report. -/
theorem main_of_file : main env [name, path] =
    (loadElf env.parse (Memory.new memSize) file >>= fun loaded =>
      match loaded with
      | (.error e, _) => .ok ⟨"", "Error loading ELF: " ++ e.display ++ "\n", 1⟩
      | (.ok entryPoint, memory) =>
        ((Cpu.new memory).writePc entryPoint).run >>= reportRun) := by
  have hArgument : argument [name, path] 1 = .ok path := rfl
  rw [main, if_neg (by simp), hArgument, Outcome.ok_bind, hRead]
  rfl

/-- What `main` prints is decided by the loaded program. Nothing is said of an endless run,
which no program without branches has. -/
theorem main_of_runs {elf : Elf} {program : List Instruction} (hRuns : Runs env file elf program) :
    ∃ cpu, cpu.regs = finalRegisters elf.eEntry program ∧
      main env [name, path] = reportRun (runOutcome elf file program, cpu) := by
  obtain ⟨cpu, hRun, hRegs⟩ := hRuns.run
  refine ⟨cpu, hRegs, ?_⟩
  rw [main_of_file _ hRead, hRuns.loadable.loadElf, Outcome.ok_bind]
  dsimp only
  rw [hRun, Outcome.ok_bind]

end File

/-- A report that fits is what `main` prints. -/
theorem Reports.main {args : List String} {process : Process} (h : Reports env args process) :
    Simulator.main env args = .ok process := by
  cases h with
  | usage name rest hCount =>
      have hArgs : (name :: rest).length ≠ 2 := by
        rw [List.length_cons]
        omega
      rw [Simulator.main, if_pos hArgs]
      rfl
  | unreadable name path e hRead =>
      have hArgument : argument [name, path] 1 = .ok path := rfl
      rw [Simulator.main, if_neg (by simp), hArgument, Outcome.ok_bind, hRead]
      rfl
  | unloadable name path file e hRead hFails =>
      obtain ⟨final, hLoad⟩ := hFails.loadElf
      rw [main_of_file _ hRead, hLoad]
      rfl
  | faults name path text file elf program e hRead hRuns hOutcome hText =>
      obtain ⟨cpu, hRegs, hMain⟩ := main_of_runs name hRead hRuns
      have hDump := (Registers.readDump_iff _ _).mp hText
      rw [hMain, hOutcome, reportRun, Cpu.printRegisters, hRegs, hDump]
      rfl
  | halts name path text file elf program hRead hRuns hOutcome hText =>
      obtain ⟨cpu, hRegs, hMain⟩ := main_of_runs name hRead hRuns
      have hDump := (Registers.readDump_iff _ _).mp hText
      rw [hMain, hOutcome, reportRun, Cpu.printRegisters, hRegs, hDump]
      rfl

/-- What the command line program does on every start with Unicode arguments and
streams that can be written: it panics exactly when it is given no argument at all,
and else prints one of the reports and exits with its code. -/
theorem main_iff_reports (env : Environment ParseError IoError) (args : List String) :
    (∀ process, main env args = .ok process ↔ Reports env args process) ∧
    ∀ panic, main env args = .error panic ↔ args = [] ∧ panic = .indexRange := by
  rcases args with _ | ⟨name, rest⟩
  · have hPanics : main env [] = .error .indexRange := rfl
    refine ⟨fun process => ⟨fun h => ?_, fun h => by cases h⟩, fun panic => ?_⟩
    · rw [hPanics] at h
      cases h
    · rw [hPanics]
      constructor
      · rintro ⟨⟩
        exact ⟨rfl, rfl⟩
      · rintro ⟨-, rfl⟩
        rfl
  · obtain ⟨report, hReport⟩ := exists_report env (List.cons_ne_nil name rest)
    have hMain := hReport.main
    refine ⟨fun process => ⟨fun h => ?_, Reports.main⟩, fun panic => ?_⟩
    · rw [hMain] at h
      cases h
      exact hReport
    · rw [hMain]
      simp

end Reports

end Simulator
