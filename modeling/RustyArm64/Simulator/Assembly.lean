import RustyArm64.Simulator.Layout
import RustyArm64.Simulator.Main

/-! Programs assembled from instruction fields and packed into an executable with one
segment. What the command line program prints for such a file is the effect of
the assembled instructions. -/
namespace Simulator

/-- The identification bytes of the header. -/
def identFields : List (Nat × Nat) :=
  [0x7F, 0x45, 0x4C, 0x46, 2, 1, 1, 0, 0, 0, 0, 0, 0, 0, 0, 0].map (Prod.mk 1)

/-- The fields of the ELF header behind the identification, and of the one program header. -/
def headerFields (entry : UInt64) (size : Nat) : List (Nat × Nat) :=
  [(2, 2), (2, 0xB7), (4, 1), (8, entry.toNat), (8, 64), (8, 0), (4, 0), (2, 64), (2, 56), (2, 1),
    (2, 64), (2, 0), (2, 0),
    (4, 1), (4, 7), (8, 120), (8, entry.toNat), (8, entry.toNat), (8, size), (8, size), (8, 0x1000)]

def elfFields (entry : UInt64) (size : Nat) : List (Nat × Nat) :=
  identFields ++ headerFields entry size

/-- The widths of the fields, in bytes. -/
def elfWidths : List Nat :=
  List.replicate 16 1 ++
    [2, 2, 4, 8, 8, 8, 4, 2, 2, 2, 2, 2, 2, 4, 4, 8, 8, 8, 8, 8, 8]

theorem map_elfFields (entry : UInt64) (size : Nat) :
    (elfFields entry size).map Prod.fst = elfWidths := rfl

theorem record_identFields : LittleEndian.record identFields =
    [0x7F, 0x45, 0x4C, 0x46, 2, 1, 1, 0, 0] ++ List.replicate 7 0 := by decide

/-- The helper of the tests packs two headers and the segment. The headers are the fields of
the format in their order, with nothing between them. -/
theorem buildElf_eq (entry : UInt64) (segment : List UInt8) :
    buildElf entry segment =
      LittleEndian.record (elfFields entry segment.length) ++ segment := by
  rw [elfFields, LittleEndian.record_append, record_identFields]
  unfold buildElf headerFields LittleEndian.record
  generalize LittleEndian.encode = le
  simp only [List.flatMap_cons, List.flatMap_nil, List.append_assoc, List.append_nil]

/-- The headers that `build_elf` writes: one segment at the entry point. -/
def builtHeaders (entry : UInt64) (segment : List UInt8) : Elf :=
  let size := UInt64.ofNat segment.length
  ⟨etExec, emAarch64, entry, [⟨ptLoad, 120, entry, size, size⟩]⟩

section Built

variable {entry : UInt64} {segment : List UInt8}

theorem buildElf_length : (buildElf entry segment).length = 120 + segment.length := by
  have hHeader : elfWidths.sum = 120 := by decide
  rw [buildElf_eq, List.length_append, LittleEndian.record_length, map_elfFields, hHeader]

/-- A stored field of a built file is the field that was written. -/
theorem storedField_buildElf (k : Nat) {start width n : Nat}
    (hField : (elfFields entry segment.length)[k]? = some (width, n))
    (hOffset : (elfWidths.take k).sum = start) (h : n < 256 ^ width) :
    storedField (buildElf entry segment) start width = n := by
  rw [← map_elfFields entry segment.length, ← List.map_take] at hOffset
  rw [storedField, buildElf_eq, ← hOffset]
  exact LittleEndian.value_field hField h segment

/-- A parser that reads the fields where they are packed finds the headers again. This is
what is asked of the ELF parser for such a file, and not for any other. -/
theorem storedHeaders_buildElf {file : Bytes} (hFile : file.toList = buildElf entry segment) :
    storedHeaders file = .ok (builtHeaders entry segment) := by
  have hEntry : entry.toNat < 256 ^ 8 := by
    have := entry.toNat_lt
    omega
  have hSize : segment.length < 256 ^ 8 := by
    have hLength := file.length_lt
    rw [hFile, buildElf_length] at hLength
    omega
  have hType : storedField (buildElf entry segment) 16 2 = 2 :=
    storedField_buildElf 16 rfl (by decide) (by decide)
  have hMachine : storedField (buildElf entry segment) 18 2 = 0xB7 :=
    storedField_buildElf 17 rfl (by decide) (by decide)
  have hStart : storedField (buildElf entry segment) 24 8 = entry.toNat :=
    storedField_buildElf 19 rfl (by decide) hEntry
  have hPhoff : storedField (buildElf entry segment) 32 8 = 64 :=
    storedField_buildElf 20 rfl (by decide) (by decide)
  have hPhnum : storedField (buildElf entry segment) 56 2 = 1 :=
    storedField_buildElf 25 rfl (by decide) (by decide)
  have hLoad : storedField (buildElf entry segment) 64 4 = 1 :=
    storedField_buildElf 29 rfl (by decide) (by decide)
  have hOffset : storedField (buildElf entry segment) 72 8 = 120 :=
    storedField_buildElf 31 rfl (by decide) (by decide)
  have hVaddr : storedField (buildElf entry segment) 80 8 = entry.toNat :=
    storedField_buildElf 32 rfl (by decide) hEntry
  have hFilesz : storedField (buildElf entry segment) 96 8 = segment.length :=
    storedField_buildElf 34 rfl (by decide) hSize
  have hMemsz : storedField (buildElf entry segment) 104 8 = segment.length :=
    storedField_buildElf 35 rfl (by decide) hSize
  have hOne : List.range 1 = [0] := rfl
  simp only [storedHeaders, hFile, hType, hMachine, hStart, hPhoff, hPhnum, hOne, List.map_cons,
    List.map_nil, Nat.mul_zero, Nat.add_zero, Nat.reduceAdd, hLoad, hOffset, hVaddr, hFilesz,
    hMemsz, UInt64.ofNat_toNat]
  rfl

/-- The file has the magic number, the class and the byte order that the loader looks for. -/
theorem passesIdentification_buildElf {file : Bytes}
    (hFile : file.toList = buildElf entry segment) :
    PassesIdentification file := by
  have hSize : 20 ≤ file.toList.length := by
    rw [hFile, buildElf_length]
    omega
  rw [buildElf_eq, elfFields, LittleEndian.record_append, record_identFields, List.append_assoc,
    List.append_assoc] at hFile
  generalize List.replicate 7 (0 : UInt8) ++ (LittleEndian.record (headerFields entry
    segment.length) ++ segment) = rest at hFile
  refine ⟨hSize, ?_, ?_, ?_⟩
  · rw [hFile]
    rfl
  · rw [hFile]
    rfl
  · rw [hFile]
    rfl

/-- The segment stands behind the headers. -/
theorem drop_buildElf : (buildElf entry segment).drop 120 = segment := by
  have hHeader : elfWidths.sum = 120 := by decide
  rw [buildElf_eq]
  apply List.drop_left'
  rw [LittleEndian.record_length, map_elfFields, hHeader]

end Built

/-- The words of a program and of the HLT behind it. -/
def assembled (layouts : List Layout) (imm16 : BitVec 16) : List UInt32 :=
  layouts.map Layout.word ++ [(Layout.hlt imm16).word]

section Program

variable {entry : UInt64} {layouts : List Layout} {imm16 : BitVec 16} {file : Bytes}

/-- An assembled program in a built file is a program image. -/
theorem programImage_of_built {ParseError : Type} {parse : Bytes → Except ParseError Elf}
    {size : UInt64}
    (hFile : file.toList = buildElf entry (wordBytes (assembled layouts imm16)))
    (hParse : ∀ elf, storedHeaders file = .ok elf → parse file = .ok elf)
    (hRunning : ∀ layout ∈ layouts, layout.instruction.isHlt = false)
    (hFits : entry.toNat + 4 * (layouts.length + 1) ≤ size.toNat) :
    ProgramImage parse file (builtHeaders entry (wordBytes (assembled layouts imm16)))
      (layouts.map Layout.word) (Layout.hlt imm16).word size where
  identified := passesIdentification_buildElf hFile
  parsed := hParse _ (storedHeaders_buildElf hFile)
  machine := rfl
  words := by
    intro word hWord
    obtain ⟨layout, hLayout, rfl⟩ := List.mem_map.mp hWord
    exact ⟨layout.instruction, layout.decode_word, hRunning layout hLayout⟩
  final := ⟨_, (Layout.hlt imm16).decode_word⟩
  fits := by
    rw [List.length_map]
    exact hFits
  segment := by
    have hLength : (wordBytes (assembled layouts imm16)).length = 4 * (layouts.length + 1) := by
      simp [assembled]
    have hSize := size.toNat_lt
    have hFilesz : (UInt64.ofNat (wordBytes (assembled layouts imm16)).length).toNat =
        4 * (layouts.length + 1) := by
      rw [hLength, UInt64.toNat_ofNat_of_lt']
      exact lt_of_le_of_lt (le_trans (Nat.le_add_left _ _) hFits) hSize
    have hOffset : (120 : UInt64).toNat = 120 := rfl
    refine ⟨[], _, [], rfl, rfl, rfl, ?_, rfl, ?_, ?_, fun other hOther => by cases hOther⟩
    · rw [List.length_map]
      exact hFilesz
    · dsimp only
      rw [hFilesz, hOffset, hFile, buildElf_length, hLength]
    · rw [ProgramHeader.fileData]
      dsimp only
      rw [hFilesz, hOffset, hFile, drop_buildElf, List.take_of_length_le (le_of_eq hLength)]
      rfl

/-- The decoded program of an image is what runs. -/
theorem runs_of_image {ParseError IoError : Type} {env : Environment ParseError IoError} {elf : Elf}
    {ws : List UInt32} {h : UInt32} (hImage : ProgramImage env.parse file elf ws h memSize) :
    ∃ program, ws.map decode = program.map .ok ∧ Runs env file elf program ∧
      runOutcome elf file program = .ok () := by
  obtain ⟨mem, program, imm16, hLoad, hDecode, -, hHolds, hSite⟩ := hImage.holds
  obtain ⟨elf', hLoadable, -, rfl⟩ := loadElf_ok_iff.mp hLoad
  have hSame : elf' = elf := by
    have hParsed := hLoadable.parsed
    rw [hImage.parsed] at hParsed
    cases hParsed
    rfl
  subst hSame
  refine ⟨program, hDecode, ⟨hLoadable, hHolds, ?_⟩, ?_⟩
  · rw [hSite]
    rfl
  · rw [runOutcome, hSite]
    rfl

/-- From the fields of the instructions to the printed registers: a program that is
assembled, packed by `build_elf` and given to the command line program halts, and the
print is read back as the registers after the same instructions executed in order. -/
theorem assembled_program_prints {ParseError IoError : Type}
    (env : Environment ParseError IoError) (name path : String)
    (hRead : env.readFile path = .ok file)
    (hFile : file.toList = buildElf entry (wordBytes (assembled layouts imm16)))
    (hParse : ∀ elf, storedHeaders file = .ok elf → env.parse file = .ok elf)
    (hRunning : ∀ layout ∈ layouts, layout.instruction.isHlt = false)
    (hFits : entry.toNat + 4 * (layouts.length + 1) ≤ memSize.toNat) :
    ∃ text regs, main env [name, path] =
        .ok ⟨"\nProgram halted successfully.\n\n" ++ (text ++ "\n"), "", 0⟩ ∧
      (∀ mem, executeList Registers.new mem false (layouts.map Layout.instruction) =
        .ok (.ok (), regs, mem, false)) ∧
      Registers.readDump text =
        some (regs.writePc (entry + UInt64.ofNat (4 * layouts.length))) := by
  have hImage := programImage_of_built hFile hParse hRunning hFits
  obtain ⟨program, hDecode, hRuns, hOutcome⟩ := runs_of_image hImage
  have hProgram : program = layouts.map Layout.instruction := by
    have hWords : (layouts.map Layout.word).map decode =
        (layouts.map Layout.instruction).map .ok := by
      rw [List.map_map, List.map_map]
      exact List.map_congr_left fun layout _ => layout.decode_word
    rw [hDecode] at hWords
    exact List.map_injective_iff.mpr (fun _ _ h => Except.ok.inj h) hWords
  obtain ⟨text, hText⟩ := exists_dump (finalRegisters entry program)
  refine ⟨text, program.foldl effect Registers.new,
    (Reports.halts name path text file _ program hRead hRuns hOutcome hText).main, ?_, ?_⟩
  · intro mem
    rw [← hProgram]
    exact executeList_eq mem false hRuns.holds.fields Registers.new
  · rw [hText, finalRegisters, hProgram, List.length_map]

end Program

/-- MOVZ X0, #0x42; ADD X1, X0, #1. -/
def incrementLayouts : List Layout :=
  [.movWide true 2 (by decide) 0 0x42 0, .addSub true false false false 1 0 1]

def incrementElf : Bytes :=
  ⟨buildElf 0x400000 (wordBytes (assembled incrementLayouts 0)), by
    rw [buildElf_length, wordBytes_length]
    decide⟩

/-- A file system with just this file in it. -/
def incrementEnvironment : Environment Unit String where
  parse := storedHeaders
  readFile path := if path = "increment.elf" then .ok incrementElf else .error "No such file"
  ioMessage e := e

theorem readFile_increment :
    incrementEnvironment.readFile "increment.elf" = .ok incrementElf := by
  simp [incrementEnvironment]

theorem assembled_program_prints_increment :
    ∃ text regs, main incrementEnvironment ["simulator", "increment.elf"] =
        .ok ⟨"\nProgram halted successfully.\n\n" ++ (text ++ "\n"), "", 0⟩ ∧
      (∀ mem, executeList Registers.new mem false (incrementLayouts.map Layout.instruction) =
        .ok (.ok (), regs, mem, false)) ∧
      Registers.readDump text =
        some (regs.writePc (0x400000 + UInt64.ofNat (4 * incrementLayouts.length))) :=
  assembled_program_prints incrementEnvironment "simulator" "increment.elf"
    readFile_increment rfl
    (fun _ hParse => hParse) (by simp [incrementLayouts, Layout.instruction, Instruction.isHlt])
    (by decide)

end Simulator
