import RustyArm64.Base.LastWriter
import RustyArm64.Simulator.Loader

/-! What a load leaves in memory, whatever it returns. The segments are written in
table order and nothing is taken back on a failure. -/
namespace Simulator

open ProgramHeader (apply)

/-- The identification checks in their order. -/
theorem checkIdentification_eq (elfBytes : Bytes) : checkIdentification elfBytes = .ok
    (if elfBytes.toList.length < 20 then .error .truncated
    else if elfBytes.toList.take 4 ≠ [0x7F, 0x45, 0x4C, 0x46] then .error .notElf
    else if elfBytes.toList[4]? ≠ some 2 then .error .unsupportedArch
    else if elfBytes.toList[5]? ≠ some 1 then .error .unsupportedArch
    else .ok ()) := by
  have hLen : elfBytes.len < 20 ↔ elfBytes.toList.length < 20 := by
    rw [UInt64.lt_iff_toNat_lt, Bytes.toNat_len]
    rfl
  rw [checkIdentification]
  by_cases hSize : elfBytes.toList.length < 20
  · rw [if_pos (hLen.mpr hSize), if_pos hSize]
    rfl
  · have hIndex : ∀ i : UInt64, i.toNat < 20 → ∃ byte, elfBytes.toList[i.toNat]? = some byte ∧
        elfBytes.index i = .ok byte := by
      intro i hi
      have hByte : elfBytes.toList[i.toNat]? = some elfBytes.toList[i.toNat] :=
        List.getElem?_eq_getElem (by omega)
      exact ⟨_, hByte, by rw [Bytes.index, hByte]⟩
    obtain ⟨eiClass, hClass, hIndex4⟩ := hIndex 4 (by decide)
    obtain ⟨eiData, hData, hIndex5⟩ := hIndex 5 (by decide)
    have hSlice : elfBytes.slice 0 4 = .ok (elfBytes.extract 0 4) :=
      Bytes.slice_eq_ok (by decide) (le_trans (by decide) (Nat.le_of_not_lt hSize))
    rw [show (4 : UInt64).toNat = 4 from rfl] at hClass
    rw [show (5 : UInt64).toNat = 5 from rfl] at hData
    rw [if_neg (mt hLen.mp hSize), if_neg hSize, hSlice, hIndex4, hIndex5, hClass, hData]
    simp only [Outcome.ok_bind, Outcome.pure_eq, Bytes.toList_extract, List.drop_zero, ne_eq,
      Option.some.injEq]
    split_ifs <;> rfl

namespace ProgramHeader

/-- The address lies in the memory image of the segment. -/
def InImage (phdr : ProgramHeader) (a : Nat) : Prop :=
  phdr.pVaddr.toNat ≤ a ∧ a < phdr.pVaddr.toNat + phdr.pMemsz.toNat

/-- The address lies behind the image, in file data that is longer than it. -/
def InExcess (phdr : ProgramHeader) (a : Nat) : Prop :=
  phdr.pMemsz.toNat < phdr.pFilesz.toNat ∧ phdr.pVaddr.toNat + phdr.pMemsz.toNat ≤ a ∧
    a < phdr.pVaddr.toNat + phdr.pFilesz.toNat

/-- The addresses a header writes, its file part or the part that is cleared. -/
theorem covers_iff (phdr : ProgramHeader) (a : Nat) :
    phdr.covers a = true ↔ phdr.pType = ptLoad ∧ (phdr.InImage a ∨ phdr.InExcess a) := by
  rw [covers, Bool.and_eq_true, Bool.and_eq_true, decide_eq_true_eq, decide_eq_true_eq, isLoad_iff,
    InImage, InExcess, and_assoc]
  refine and_congr_right fun _ => ?_
  omega

theorem covers_eq_false {phdrs : List ProgramHeader} {a : Nat} (hNone : ¬∃ phdr ∈ phdrs,
    phdr.pType = ptLoad ∧ (phdr.InImage a ∨ phdr.InExcess a)) :
    ∀ phdr ∈ phdrs, phdr.covers a = false := by
  intro phdr hMem
  rw [← Bool.not_eq_true, covers_iff]
  exact fun hCovers => hNone ⟨phdr, hMem, hCovers⟩

/-- A header leaves the bytes it does not cover. -/
theorem getElem?_apply_outside {phdr : ProgramHeader} {file : List UInt8} {a : Nat}
    (hOutside : phdr.covers a = false) (m : Memory) :
    (phdr.apply file m).bytes[a]? = m.bytes[a]? := by
  unfold apply
  split
  · rename_i hLoad
    rw [covers, hLoad, Bool.true_and, Bool.and_eq_false_iff, decide_eq_false_iff_not,
      decide_eq_false_iff_not] at hOutside
    exact getElem?_place_outside (by omega)
  · rfl

theorem getElem?_placePart_outside {phdr : ProgramHeader} {file : List UInt8} {a : Nat}
    (hLoad : phdr.isLoad = true) (hOutside : phdr.covers a = false) (m : Memory) :
    (phdr.placePart file m).bytes[a]? = m.bytes[a]? := by
  have hLength : (phdr.fileData file).length ≤ phdr.pFilesz.toNat := List.length_take_le ..
  rw [covers, hLoad, Bool.true_and, Bool.and_eq_false_iff, decide_eq_false_iff_not,
    decide_eq_false_iff_not] at hOutside
  unfold placePart
  split
  · rw [Memory.bytes_store, List.getElem?_overwrite_outside (by omega)]
  · rfl

/-- Writing a part of a segment does not change the size of memory. -/
theorem placePart_length (phdr : ProgramHeader) (file : List UInt8) (m : Memory) :
    (phdr.placePart file m).bytes.length = m.bytes.length := by
  unfold placePart
  split <;> simp

/-- An address that no header covers keeps its byte. -/
theorem getElem?_foldl_apply_outside {phdrs : List ProgramHeader} {file : List UInt8} {a : Nat}
    (hOutside : ∀ phdr ∈ phdrs, phdr.covers a = false) (m : Memory) :
    (phdrs.foldl (apply file) m).bytes[a]? = m.bytes[a]? :=
  LastWriter.foldl_kept (fun m : Memory => m.bytes[a]?)
    (fun m _ hOther => getElem?_apply_outside hOther m) hOutside m

/-- Headers with nothing to load have no effect. -/
theorem foldl_apply_of_empty {phdrs : List ProgramHeader}
    (hEmpty : (phdrs.any fun phdr => phdr.isLoad && phdr.nonempty) = false) (file : List UInt8)
    (m : Memory) : phdrs.foldl (apply file) m = m := by
  induction phdrs with
  | nil => rfl
  | cons phdr rest ih =>
      rw [List.any_cons, Bool.or_eq_false_iff, Bool.and_eq_false_iff] at hEmpty
      have hSkip : phdr.apply file m = m := by
        unfold apply
        split
        · rename_i hLoad
          have hSizes : phdr.nonempty = false :=
            hEmpty.1.resolve_left (by rw [hLoad]; exact Bool.noConfusion)
          exact place_of_empty (phdr.nonempty_eq_false_iff.mp hSizes) file m
        · rfl
      rw [List.foldl_cons, hSkip, ih hEmpty.2]

end ProgramHeader

/-- The checks pass, or they turn the file down. -/
theorem checkIdentification_cases (elfBytes : Bytes) :
    PassesIdentification elfBytes ∨ ∃ e, e ≠ .segmentDataOutOfBounds ∧
      checkIdentification elfBytes = .ok (.error e) := by
  rw [checkIdentification_eq]
  by_cases hSize : elfBytes.toList.length < 20
  · exact Or.inr ⟨.truncated, by decide, by rw [if_pos hSize]⟩
  rw [if_neg hSize]
  by_cases hMagic : elfBytes.toList.take 4 = [0x7F, 0x45, 0x4C, 0x46]
  · rw [if_neg (not_not_intro hMagic)]
    by_cases hClass : elfBytes.toList[4]? = some 2
    · rw [if_neg (not_not_intro hClass)]
      by_cases hData : elfBytes.toList[5]? = some 1
      · exact Or.inl ⟨Nat.le_of_not_lt hSize, hMagic, hClass, hData⟩
      · exact Or.inr ⟨.unsupportedArch, by decide, by rw [if_pos hData]⟩
    · exact Or.inr ⟨.unsupportedArch, by decide, by rw [if_pos hClass]⟩
  · exact Or.inr ⟨.notElf, by decide, by rw [if_pos hMagic]⟩

section Load

variable {ParseError : Type} (parse : Bytes → Except ParseError Elf) (memory : Memory)
  (elfBytes : Bytes)

/-- A file refused at its identification leaves the memory untouched. -/
theorem loadElf_of_check_error {e : LoaderError}
    (hCheck : checkIdentification elfBytes = .ok (.error e)) :
    loadElf parse memory elfBytes = .ok (.error e, memory) := by
  rw [loadElf, hCheck, Outcome.ok_bind]
  rfl

/-- So does a file for another machine. -/
theorem loadElf_of_other_machine {elf : Elf} (hIdent : PassesIdentification elfBytes)
    (hParse : parse elfBytes = .ok elf) (hMachine : elf.eMachine ≠ emAarch64) :
    loadElf parse memory elfBytes = .ok (.error .unsupportedArch, memory) := by
  rw [loadElf, checkIdentification_ok hIdent, Outcome.ok_bind]
  simp only [hParse, if_pos hMachine, Outcome.pure_eq]

/-- A load is turned down before the segments, or gets through them, or fails at
the first bad one. -/
theorem loadElf_cases :
    (∃ e, e ≠ .segmentDataOutOfBounds ∧
      loadElf parse memory elfBytes = .ok (.error e, memory)) ∨
    ∃ elf, parse elfBytes = .ok elf ∧
      (loadElf parse memory elfBytes = .ok
          (if elf.programHeaders.any fun phdr => phdr.isLoad && phdr.nonempty then .ok elf.eEntry
            else .error .noLoadableSegments,
          elf.programHeaders.foldl (apply elfBytes.toList) memory) ∨
        ∃ final before bad after, loadElf parse memory elfBytes =
            .ok (.error .segmentDataOutOfBounds, final) ∧
          FirstBad elfBytes elf.programHeaders memory final before bad after) := by
  rcases checkIdentification_cases elfBytes with hIdent | ⟨e, hError, hCheck⟩
  · cases hParse : parse elfBytes with
    | error e =>
        refine Or.inl ⟨.notElf, by decide, ?_⟩
        rw [loadElf, checkIdentification_ok hIdent, Outcome.ok_bind]
        simp only [hParse, Outcome.pure_eq]
    | ok elf =>
        by_cases hMachine : elf.eMachine = emAarch64
        · refine Or.inr ⟨elf, rfl, ?_⟩
          rcases ProgramHeader.inBounds_or_bad elf.programHeaders elfBytes.toList.length
            memory.bytes.length with hBounds | hBad
          · exact Or.inl (loadElf_in_bounds hIdent hParse hMachine hBounds)
          · exact Or.inr (loadElf_out_of_bounds hIdent hParse hMachine hBad)
        · exact Or.inl ⟨.unsupportedArch, by decide,
            loadElf_of_other_machine parse memory elfBytes hIdent hParse hMachine⟩
  · exact Or.inl ⟨e, hError, loadElf_of_check_error parse memory elfBytes hCheck⟩

/-- A byte that changes lies in the memory image of a loadable segment, or behind
it in file data that is longer than the image. -/
theorem load_writes_covered : ∃ result final, loadElf parse memory elfBytes = .ok (result, final) ∧
    final.bytes.length = memory.bytes.length ∧
    ∀ a, final.bytes[a]? ≠ memory.bytes[a]? → ∃ elf, parse elfBytes = .ok elf ∧
      ∃ phdr ∈ elf.programHeaders, phdr.pType = ptLoad ∧ (phdr.InImage a ∨ phdr.InExcess a) := by
  rcases loadElf_cases parse memory elfBytes with ⟨e, -, hLoad⟩ | ⟨elf, hParse, hLoad | hFailed⟩
  · exact ⟨_, _, hLoad, rfl, fun a hChanged => (hChanged rfl).elim⟩
  · refine ⟨_, _, hLoad, ProgramHeader.foldl_apply_length .., fun a hChanged => ?_⟩
    refine ⟨elf, hParse, ?_⟩
    by_contra hNone
    have hOutside := ProgramHeader.covers_eq_false hNone
    exact hChanged (ProgramHeader.getElem?_foldl_apply_outside hOutside memory)
  · obtain ⟨final, before, bad, after, hLoad, hFirst⟩ := hFailed
    obtain ⟨hSplit, -, hIsLoad, -, hFinal⟩ := hFirst
    refine ⟨_, final, hLoad, ?_, fun a hChanged => ⟨elf, hParse, ?_⟩⟩
    · rw [hFinal, ProgramHeader.placePart_length, ProgramHeader.foldl_apply_length]
    · by_contra hNone
      have hOutside := ProgramHeader.covers_eq_false hNone
      rw [hSplit] at hOutside
      refine hChanged ?_
      rw [hFinal, ProgramHeader.getElem?_placePart_outside hIsLoad (hOutside bad (by simp)),
        ProgramHeader.getElem?_foldl_apply_outside fun phdr hMem =>
          hOutside phdr (List.mem_append_left _ hMem)]

/-- A failed load leaves the memory alone, or it leaves the segments before the bad
one, and the file data of that one if it could be copied. Nothing is undone. -/
theorem failed_load_keeps_writes : ∃ result final,
    loadElf parse memory elfBytes = .ok (result, final) ∧
    ∀ e, result = .error e →
      (e ≠ .segmentDataOutOfBounds → final = memory) ∧
      (e = .segmentDataOutOfBounds → ∃ elf before bad after, parse elfBytes = .ok elf ∧
        FirstBad elfBytes elf.programHeaders memory final before bad after) := by
  rcases loadElf_cases parse memory elfBytes with
    ⟨e, hOther, hLoad⟩ | ⟨elf, hParse, hLoad | hFailed⟩
  · refine ⟨_, _, hLoad, fun e' hError => ?_⟩
    cases hError
    exact ⟨fun _ => rfl, fun hSame => (hOther hSame).elim⟩
  · refine ⟨_, _, hLoad, fun e hError => ?_⟩
    cases hAny : elf.programHeaders.any fun phdr => phdr.isLoad && phdr.nonempty with
    | true =>
        rw [hAny] at hError
        cases hError
    | false =>
        rw [hAny] at hError
        cases hError
        exact ⟨fun _ => ProgramHeader.foldl_apply_of_empty hAny _ _, fun hSame => nomatch hSame⟩
  · obtain ⟨final, before, bad, after, hLoad, hFirst⟩ := hFailed
    refine ⟨_, final, hLoad, fun e hError => ?_⟩
    cases hError
    exact ⟨fun hOther => (hOther rfl).elim, fun _ => ⟨elf, before, bad, after, hParse, hFirst⟩⟩

end Load

/-- A byte of a file replaced. -/
def Bytes.set (b : Bytes) (i : Nat) (byte : UInt8) : Bytes :=
  ⟨b.toList.set i byte, by rw [List.length_set]; exact b.length_lt⟩

/-- The file data of the segment is four bytes long, and its image two. -/
def shortImageElf : Bytes := retElf.set 104 2

/-- The third byte of the segment is written behind its image. -/
theorem load_writes_behind_image : ∃ elf final, storedHeaders shortImageElf = .ok elf ∧
    loadElf storedHeaders (Memory.new 16) shortImageElf = .ok (.ok 8, final) ∧
    final.bytes[10]? ≠ (Memory.new 16).bytes[10]? ∧
    ∀ phdr ∈ elf.programHeaders, ¬phdr.InImage 10 := by
  refine ⟨⟨2, 0xB7, 8, [⟨1, 120, 8, 4, 2⟩]⟩, (Memory.new 16).store 8 [0xC0, 0x03, 0x5F, 0xD6],
    by decide +kernel, by decide +kernel, by decide +kernel, ?_⟩
  simp [ProgramHeader.InImage]

/-- The zero-fill of the segment goes past the end of a small memory. -/
def longImageElf : Bytes := retElf.set 104 100

/-- The load fails, and the file data of the segment stays in memory. -/
theorem failed_load_changes_memory : ∃ final,
    loadElf storedHeaders (Memory.new 16) longImageElf =
      .ok (.error .segmentDataOutOfBounds, final) ∧ final ≠ Memory.new 16 :=
  ⟨(Memory.new 16).store 8 [0xC0, 0x03, 0x5F, 0xD6], by decide +kernel, by decide +kernel⟩

end Simulator
