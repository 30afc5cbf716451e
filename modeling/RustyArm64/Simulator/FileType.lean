import RustyArm64.Simulator.PartialLoad

/-! The validation of the ELF header, against what the loader says that it accepts.
The file type is parsed and never looked at. -/
namespace Simulator

/-- `ET_REL`. -/
def etRel : UInt16 := 1

/-- `ET_EXEC`. -/
def etExec : UInt16 := 2

/-- `ET_DYN`. -/
def etDyn : UInt16 := 3

/-- `ET_CORE`. -/
def etCore : UInt16 := 4

/-- The file types of relocatable, shared-object and core files. -/
def otherTypes : List UInt16 := [etRel, etDyn, etCore]

def storedType (elfBytes : Bytes) : UInt16 := UInt16.ofNat (storedField elfBytes.toList 16 2)

def storedMachine (elfBytes : Bytes) : UInt16 := UInt16.ofNat (storedField elfBytes.toList 18 2)

/-- The segments of the file fit, and there is something to load. -/
def Elf.Loads (elf : Elf) (elfBytes : Bytes) (memory : Memory) : Prop :=
  (∃ phdr ∈ elf.programHeaders, phdr.pType = ptLoad ∧ (phdr.pFilesz ≠ 0 ∨ phdr.pMemsz ≠ 0)) ∧
  ∀ phdr ∈ elf.programHeaders, phdr.pType = ptLoad →
    phdr.InBounds elfBytes.toList.length memory.bytes.length

section Validation

variable {ParseError : Type} (parse : Bytes → Except ParseError Elf)

/-- The parser returns the type and the machine of a 64-bit little-endian file as
they are stored in it. -/
def StoresFields : Prop := ∀ elfBytes elf, PassesIdentification elfBytes →
  parse elfBytes = .ok elf →
    elf.eType = storedType elfBytes ∧ elf.eMachine = storedMachine elfBytes

/-- What the loader says of the files that it accepts and of those it rejects. -/
structure ValidatesHeader (memory : Memory) (elfBytes : Bytes) : Prop where
  accepted : ∀ entry final, loadElf parse memory elfBytes = .ok (.ok entry, final) →
    PassesIdentification elfBytes ∧ storedMachine elfBytes = emAarch64 ∧
      storedType elfBytes = etExec
  rejected : ∀ elf, 20 ≤ elfBytes.toList.length →
    elfBytes.toList.take 4 = [0x7F, 0x45, 0x4C, 0x46] → parse elfBytes = .ok elf →
      elf.eType ∈ otherTypes →
        ∃ final, loadElf parse memory elfBytes = .ok (.error .unsupportedArch, final)

/-- A file that comes to the segments is an executable, or it is of a type beyond
the known ones and fails for its segments. -/
def TypeDecidesNothing (memory : Memory) (elfBytes : Bytes) : Prop :=
  ∀ elf, PassesIdentification elfBytes → parse elfBytes = .ok elf → elf.eMachine = emAarch64 →
    elf.eType = etExec ∨ elf.eType ∉ otherTypes ∧ ¬elf.Loads elfBytes memory

variable {parse} {elfBytes : Bytes} {elf : Elf}

/-- Past the header checks the segments alone decide. -/
theorem loadElf_passed (hIdent : PassesIdentification elfBytes) (hParse : parse elfBytes = .ok elf)
    (hMachine : elf.eMachine = emAarch64) (memory : Memory) :
    ∃ result final, loadElf parse memory elfBytes = .ok (result, final) ∧
      (elf.Loads elfBytes memory ∧ result = .ok elf.eEntry ∨
        ¬elf.Loads elfBytes memory ∧ ∃ e, e ≠ .unsupportedArch ∧ result = .error e) := by
  rcases ProgramHeader.inBounds_or_bad elf.programHeaders elfBytes.toList.length
    memory.bytes.length with hBounds | hBad
  · refine ⟨_, _, loadElf_in_bounds hIdent hParse hMachine hBounds, ?_⟩
    cases hAny : elf.programHeaders.any fun phdr => phdr.isLoad && phdr.nonempty with
    | true =>
        exact Or.inl ⟨⟨(any_load_iff _).mp hAny, fun phdr hMem hType =>
          hBounds phdr hMem (phdr.isLoad_iff.mpr hType)⟩, rfl⟩
    | false =>
        refine Or.inr ⟨fun hLoads => ?_, .noLoadableSegments, by decide, rfl⟩
        rw [(any_load_iff _).mpr hLoads.1] at hAny
        cases hAny
  · obtain ⟨final, -, -, -, hLoad, -⟩ := loadElf_out_of_bounds hIdent hParse hMachine hBad
    refine ⟨_, final, hLoad, Or.inr ⟨fun hLoads => ?_, .segmentDataOutOfBounds, by decide, rfl⟩⟩
    obtain ⟨phdr, hMem, hIsLoad, hOut⟩ := hBad
    exact hOut (hLoads.2 phdr hMem (phdr.isLoad_iff.mp hIsLoad))

/-- An accepted file has passed the checks of the header. -/
theorem checks_of_accepted {entry : UInt64} {memory final : Memory}
    (hLoad : loadElf parse memory elfBytes = .ok (.ok entry, final)) :
    PassesIdentification elfBytes ∧
      ∃ elf, parse elfBytes = .ok elf ∧ elf.eMachine = emAarch64 := by
  rcases checkIdentification_cases elfBytes with hIdent | ⟨e, -, hCheck⟩
  · refine ⟨hIdent, ?_⟩
    rw [loadElf, checkIdentification_ok hIdent, Outcome.ok_bind] at hLoad
    cases hParse : parse elfBytes with
    | error e => simp [hParse] at hLoad
    | ok elf =>
        refine ⟨elf, rfl, ?_⟩
        by_contra hMachine
        simp [hParse, hMachine] at hLoad
  · rw [loadElf_of_check_error parse memory elfBytes hCheck] at hLoad
    cases hLoad

/-- An ELF file of another class or byte order is of an unsupported architecture. -/
theorem loadElf_other_class (hSize : 20 ≤ elfBytes.toList.length)
    (hMagic : elfBytes.toList.take 4 = [0x7F, 0x45, 0x4C, 0x46])
    (hIdent : ¬PassesIdentification elfBytes) (memory : Memory) :
    loadElf parse memory elfBytes = .ok (.error .unsupportedArch, memory) := by
  have hCheck : checkIdentification elfBytes = .ok (.error .unsupportedArch) := by
    rw [checkIdentification_eq, if_neg (Nat.not_lt_of_le hSize), if_neg (not_not_intro hMagic)]
    by_cases hClass : elfBytes.toList[4]? = some 2
    · have hData : elfBytes.toList[5]? ≠ some 1 := fun hData =>
        hIdent ⟨hSize, hMagic, hClass, hData⟩
      rw [if_neg (not_not_intro hClass), if_pos hData]
    · rw [if_pos hClass]
  exact loadElf_of_check_error parse memory elfBytes hCheck

/-- The loader keeps to what it says exactly for the files whose type makes no
difference: it accepts the other types just as it does executables. -/
theorem validates_header_iff (parse : Bytes → Except ParseError Elf) (hStores : StoresFields parse)
    (memory : Memory) (elfBytes : Bytes) :
    ValidatesHeader parse memory elfBytes ↔ TypeDecidesNothing parse memory elfBytes := by
  constructor
  · rintro ⟨hAccepted, hRejected⟩ elf hIdent hParse hMachine
    obtain ⟨result, final, hLoad, hResult⟩ := loadElf_passed hIdent hParse hMachine memory
    by_cases hExec : elf.eType = etExec
    · exact Or.inl hExec
    · refine Or.inr ⟨fun hOther => ?_, fun hLoads => ?_⟩
      · obtain ⟨final', hUnsupported⟩ := hRejected elf hIdent.1 hIdent.2.1 hParse hOther
        rw [hUnsupported, Except.ok.injEq, Prod.mk.injEq] at hLoad
        rcases hResult with ⟨-, hOk⟩ | ⟨-, e, hNe, hError⟩
        · rw [hOk] at hLoad
          cases hLoad.1
        · rw [hError] at hLoad
          exact hNe (Except.error.inj hLoad.1).symm
      · rcases hResult with ⟨-, rfl⟩ | ⟨hNone, -⟩
        · obtain ⟨-, -, hType⟩ := hAccepted _ _ hLoad
          exact hExec ((hStores elfBytes elf hIdent hParse).1.trans hType)
        · exact hNone hLoads
  · intro hHarmless
    refine ⟨fun entry final hLoad => ?_, fun elf hSize hMagic hParse hOther => ?_⟩
    · obtain ⟨hIdent, elf, hParse, hMachine⟩ := checks_of_accepted hLoad
      obtain ⟨hType, hStoredMachine⟩ := hStores elfBytes elf hIdent hParse
      refine ⟨hIdent, hStoredMachine.symm.trans hMachine, ?_⟩
      rcases hHarmless elf hIdent hParse hMachine with hExec | ⟨-, hNone⟩
      · exact hType.symm.trans hExec
      · obtain ⟨result, final', hPassed, hResult⟩ := loadElf_passed hIdent hParse hMachine memory
        rw [hLoad, Except.ok.injEq, Prod.mk.injEq] at hPassed
        rcases hResult with ⟨hLoads, -⟩ | ⟨-, e, -, hError⟩
        · exact (hNone hLoads).elim
        · rw [hError] at hPassed
          cases hPassed.1
    · by_cases hIdent : PassesIdentification elfBytes
      · by_cases hMachine : elf.eMachine = emAarch64
        · rcases hHarmless elf hIdent hParse hMachine with hExec | ⟨hKnown, -⟩
          · rw [hExec] at hOther
            exact absurd hOther (by decide)
          · exact (hKnown hOther).elim
        · exact ⟨memory, loadElf_of_other_machine parse memory elfBytes hIdent hParse hMachine⟩
      · exact ⟨memory, loadElf_other_class hSize hMagic hIdent memory⟩

end Validation

theorem storesFields_storedHeaders : StoresFields storedHeaders := by
  intro elfBytes elf hIdent hParse
  cases hParse
  exact ⟨rfl, rfl⟩

theorem validates_header_iff_retElf : ValidatesHeader storedHeaders (Memory.new 16) retElf ↔
    TypeDecidesNothing storedHeaders (Memory.new 16) retElf :=
  validates_header_iff storedHeaders storesFields_storedHeaders (Memory.new 16) retElf

/-- The same file with the type of a relocatable one. -/
def relocatableElf : Bytes := retElf.set 16 1

/-- It is loaded all the same. -/
theorem relocatable_is_loaded : storedType relocatableElf = etRel ∧
    loadElf storedHeaders (Memory.new 16) relocatableElf =
      .ok (.ok 8, (Memory.new 16).store 8 [0xC0, 0x03, 0x5F, 0xD6]) ∧
    ¬ValidatesHeader storedHeaders (Memory.new 16) relocatableElf := by
  have hType : storedType relocatableElf = etRel := by decide +kernel
  have hLoad : loadElf storedHeaders (Memory.new 16) relocatableElf =
      .ok (.ok 8, (Memory.new 16).store 8 [0xC0, 0x03, 0x5F, 0xD6]) := by decide +kernel
  refine ⟨hType, hLoad, fun hValidates => ?_⟩
  obtain ⟨-, -, hExec⟩ := hValidates.accepted _ _ hLoad
  rw [hType] at hExec
  exact absurd hExec (by decide)

end Simulator
