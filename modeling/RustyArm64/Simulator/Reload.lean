import RustyArm64.Simulator.PartialLoad

/-! What a load does depends on the memory only through its size, also when it fails
half way: some headers are applied, and always the same ones. -/
namespace Simulator

namespace ProgramHeader

/-- The header with nothing behind its file data. -/
def dataOnly (phdr : ProgramHeader) : ProgramHeader := { phdr with pMemsz := phdr.pFilesz }

theorem isLoad_dataOnly (phdr : ProgramHeader) : phdr.dataOnly.isLoad = phdr.isLoad := rfl

theorem inBounds_dataOnly (phdr : ProgramHeader) (fileLen memLen : Nat) :
    phdr.dataOnly.InBounds fileLen memLen ↔
      (0 < phdr.pFilesz.toNat → phdr.pOffset.toNat + phdr.pFilesz.toNat ≤ fileLen ∧
        phdr.pVaddr.toNat + phdr.pFilesz.toNat ≤ memLen) :=
  and_iff_left fun hLess => absurd hLess (Nat.lt_irrefl _)

/-- Placing the file part alone clears nothing. -/
theorem place_dataOnly (phdr : ProgramHeader) (file : List UInt8) (m : Memory) :
    phdr.dataOnly.place file m = m.store phdr.pVaddr.toNat (phdr.fileData file) := by
  have hData : phdr.dataOnly.fileData file = phdr.fileData file := rfl
  rw [place, hData, dataOnly, Nat.sub_self, List.replicate_zero, Memory.store_nil]

/-- What is left of a header out of bounds: its file data, when that fits. -/
def remains (phdr : ProgramHeader) (fileLen memLen : Nat) : List ProgramHeader :=
  if phdr.dataOnly.InBounds fileLen memLen then [phdr.dataOnly] else []

/-- What a failing header leaves behind is that of at most one smaller header. -/
theorem foldl_remains {phdr : ProgramHeader} (hLoad : phdr.isLoad = true) (file : List UInt8)
    (m : Memory) :
    (phdr.remains file.length m.bytes.length).foldl (apply file) m = phdr.placePart file m := by
  unfold remains placePart
  by_cases hData : phdr.dataOnly.InBounds file.length m.bytes.length
  · rw [if_pos hData, if_pos ((phdr.inBounds_dataOnly _ _).mp hData), List.foldl_cons,
      List.foldl_nil, apply, isLoad_dataOnly, if_pos hLoad, place_dataOnly]
  · rw [if_neg hData, if_neg (mt (phdr.inBounds_dataOnly _ _).mpr hData), List.foldl_nil]

theorem inBounds_of_mem_remains {phdr other : ProgramHeader} {fileLen memLen : Nat}
    (h : other ∈ phdr.remains fileLen memLen) : other.InBounds fileLen memLen := by
  unfold remains at h
  split at h
  · rename_i hData
    rw [List.mem_singleton.mp h]
    exact hData
  · cases h

end ProgramHeader

open ProgramHeader

/-- The loop fails at the first header out of bounds. -/
theorem loadSegments_append_bad (elfBytes : Bytes) {before after : List ProgramHeader}
    {bad : ProgramHeader} (anyLoaded : Bool) {memory : Memory}
    (hBefore : ∀ phdr ∈ before, phdr.isLoad = true →
      phdr.InBounds elfBytes.toList.length memory.bytes.length)
    (hLoad : bad.isLoad = true)
    (hOut : ¬bad.InBounds elfBytes.toList.length memory.bytes.length) :
    loadSegments elfBytes (before ++ bad :: after) anyLoaded memory =
      .ok (.error .segmentDataOutOfBounds,
        bad.placePart elfBytes.toList (before.foldl (apply elfBytes.toList) memory)) := by
  induction before generalizing anyLoaded memory with
  | nil => exact loadSegments_cons_error elfBytes bad after anyLoaded memory hLoad hOut
  | cons phdr rest ih =>
      have hFirst := hBefore phdr (List.mem_cons_self ..)
      rw [List.cons_append, loadSegments_cons elfBytes phdr (rest ++ bad :: after) anyLoaded memory
        hFirst, List.foldl_cons]
      apply ih
      · intro other hOther
        rw [apply_length]
        exact hBefore other (List.mem_cons_of_mem _ hOther)
      · rw [apply_length]
        exact hOut

/-- The first loadable header out of bounds. -/
theorem exists_first_bad {phdrs : List ProgramHeader} {fileLen memLen : Nat}
    (hBad : ∃ phdr ∈ phdrs, phdr.isLoad = true ∧ ¬phdr.InBounds fileLen memLen) :
    ∃ before bad after, phdrs = before ++ bad :: after ∧
      (∀ phdr ∈ before, phdr.isLoad = true → phdr.InBounds fileLen memLen) ∧
      bad.isLoad = true ∧ ¬bad.InBounds fileLen memLen := by
  induction phdrs with
  | nil =>
      obtain ⟨phdr, hMem, -⟩ := hBad
      cases hMem
  | cons phdr rest ih =>
      by_cases hHead : phdr.isLoad = true → phdr.InBounds fileLen memLen
      · obtain ⟨other, hMem, hLoad, hOut⟩ := hBad
        have hRest : other ∈ rest := by
          rcases List.mem_cons.mp hMem with rfl | hRest
          · exact (hOut (hHead hLoad)).elim
          · exact hRest
        obtain ⟨before, bad, after, rfl, hBefore, h⟩ := ih ⟨other, hRest, hLoad, hOut⟩
        exact ⟨phdr :: before, bad, after, rfl, List.forall_mem_cons.mpr ⟨hHead, hBefore⟩, h⟩
      · obtain ⟨hLoad, hOut⟩ := Classical.not_imp.mp hHead
        exact ⟨[], phdr, rest, rfl, List.forall_mem_nil _, hLoad, hOut⟩

section Load

variable {ParseError : Type} (parse : Bytes → Except ParseError Elf) (elfBytes : Bytes)

/-- On memories of one size a load has one result and applies one list of headers,
all in bounds. -/
theorem loadElf_applies (size : Nat) :
    ∃ (result : Except LoaderError UInt64) (applied : List ProgramHeader),
      (∀ phdr ∈ applied, phdr.isLoad = true → phdr.InBounds elfBytes.toList.length size) ∧
      ∀ memory : Memory, memory.bytes.length = size →
        loadElf parse memory elfBytes =
          .ok (result, applied.foldl (apply elfBytes.toList) memory) := by
  rcases checkIdentification_cases elfBytes with hIdent | ⟨e, -, hCheck⟩
  · cases hParse : parse elfBytes with
    | error e =>
        refine ⟨.error .notElf, [], List.forall_mem_nil _, fun memory _ => ?_⟩
        rw [loadElf, checkIdentification_ok hIdent, Outcome.ok_bind]
        simp only [hParse, Outcome.pure_eq, List.foldl_nil]
    | ok elf =>
        by_cases hMachine : elf.eMachine = emAarch64
        · rcases ProgramHeader.inBounds_or_bad elf.programHeaders elfBytes.toList.length size with
            hBounds | hBad
          · exact ⟨_, elf.programHeaders, hBounds, fun memory hSize =>
              loadElf_in_bounds hIdent hParse hMachine (hSize.symm ▸ hBounds)⟩
          · obtain ⟨before, bad, after, hSplit, hBefore, hLoad, hOut⟩ := exists_first_bad hBad
            refine ⟨.error .segmentDataOutOfBounds,
              before ++ bad.remains elfBytes.toList.length size, ?_, ?_⟩
            · intro phdr hMem hIsLoad
              rcases List.mem_append.mp hMem with hMem | hMem
              · exact hBefore phdr hMem hIsLoad
              · exact inBounds_of_mem_remains hMem
            · rintro memory rfl
              have hLength := foldl_apply_length before elfBytes.toList memory
              rw [loadElf_of_checks hIdent hParse hMachine, hSplit,
                loadSegments_append_bad elfBytes false hBefore hLoad hOut, List.foldl_append,
                ← hLength, foldl_remains hLoad]
              rfl
        · exact ⟨.error .unsupportedArch, [], List.forall_mem_nil _, fun memory _ =>
            loadElf_of_other_machine parse memory elfBytes hIdent hParse hMachine⟩
  · exact ⟨.error e, [], List.forall_mem_nil _, fun memory _ =>
      loadElf_of_check_error parse memory elfBytes hCheck⟩

/-- Two memories of one size get the same result from a load, the same bytes where it
writes, and keep their own bytes elsewhere. A second load of the same file changes
nothing. All this also holds of a load that fails. -/
theorem load_again (memory other : Memory) (hSize : other.bytes.length = memory.bytes.length) :
    ∃ result final otherFinal,
      loadElf parse memory elfBytes = .ok (result, final) ∧
      loadElf parse other elfBytes = .ok (result, otherFinal) ∧
      (∀ a : Nat, otherFinal.bytes[a]? = final.bytes[a]? ∨
        otherFinal.bytes[a]? = other.bytes[a]? ∧ final.bytes[a]? = memory.bytes[a]?) ∧
      loadElf parse final elfBytes = .ok (result, final) := by
  obtain ⟨result, applied, hBounds, hLoad⟩ :=
    loadElf_applies parse elfBytes memory.bytes.length
  have hByte (m : Memory) (hLength : m.bytes.length = memory.bytes.length) (a : Nat) :=
    getElem?_foldl_apply (hLength.symm ▸ hBounds) a
  have hFinal := foldl_apply_length applied elfBytes.toList memory
  refine ⟨result, _, _, hLoad memory rfl, hLoad other hSize, fun a => ?_, ?_⟩
  · rw [hByte other hSize a, hByte memory rfl a]
    cases applied.reverse.find? (·.covers a) with
    | some phdr => exact Or.inl rfl
    | none => exact Or.inr ⟨rfl, rfl⟩
  · rw [hLoad _ hFinal]
    refine congrArg (fun m => Except.ok (result, m)) (Memory.ext (List.ext_getElem? fun a => ?_))
    rw [hByte _ hFinal a, hByte memory rfl a]
    cases applied.reverse.find? (·.covers a) <;> rfl

end Load

/-- A load that fails, into memories with different contents. -/
theorem load_again_longImageElf : ∃ result final otherFinal,
    loadElf storedHeaders (Memory.new 16) longImageElf = .ok (result, final) ∧
    loadElf storedHeaders ((Memory.new 16).store 0 [1]) longImageElf = .ok (result, otherFinal) ∧
    (∀ a : Nat, otherFinal.bytes[a]? = final.bytes[a]? ∨
      otherFinal.bytes[a]? = ((Memory.new 16).store 0 [1]).bytes[a]? ∧
        final.bytes[a]? = (Memory.new 16).bytes[a]?) ∧
    loadElf storedHeaders final longImageElf = .ok (result, final) :=
  load_again storedHeaders longImageElf (Memory.new 16) ((Memory.new 16).store 0 [1]) (by simp)

end Simulator
