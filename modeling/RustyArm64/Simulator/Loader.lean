import RustyArm64.Simulator.Memory

/-! The ELF loader. The ELF parser of the third-party crate is a parameter; all
that happens to its program headers is modelled. The memory is returned with
every result, since a failing load has written the segments before the bad one. -/
namespace Simulator

inductive LoaderError where
  /-- The data is not a valid ELF file (bad magic or parse failure). -/
  | notElf
  /-- The ELF file is truncated or contains invalid data. -/
  | truncated
  /-- The ELF file is not a 64-bit little-endian AArch64 executable. -/
  | unsupportedArch
  /-- The ELF file has no loadable segments. -/
  | noLoadableSegments
  /-- A segment's file data is out of bounds. -/
  | segmentDataOutOfBounds
  deriving DecidableEq, Repr

structure ProgramHeader where
  pType : UInt32
  pOffset : UInt64
  pVaddr : UInt64
  pFilesz : UInt64
  pMemsz : UInt64
  deriving DecidableEq, Repr

/-- The parsed fields of the ELF and program headers. -/
structure Elf where
  eType : UInt16
  eMachine : UInt16
  eEntry : UInt64
  programHeaders : List ProgramHeader
  deriving DecidableEq, Repr

def emAarch64 : UInt16 := 0xB7

def ptLoad : UInt32 := 1

/-- The copy of a segment's file data. -/
def copyFileData (memory : Memory) (elfBytes : Bytes) (phdr : ProgramHeader) :
    Outcome (Except LoaderError Unit × Memory) :=
  let fileSz := phdr.pFilesz
  if fileSz > 0 then
    let start := phdr.pOffset
    match checkedAdd start fileSz with
    | none => return (.error .segmentDataOutOfBounds, memory)
    | some stop =>
      if stop > elfBytes.len then return (.error .segmentDataOutOfBounds, memory)
      else do
        let segmentData ← elfBytes.slice start stop
        let (result, memory) ← memory.writeBytes phdr.pVaddr segmentData
        return (result.mapError fun _ => .segmentDataOutOfBounds, memory)
  else return (.ok (), memory)

/-- The zero-fill behind the file data. -/
def zeroFillBss (memory : Memory) (phdr : ProgramHeader) :
    Outcome (Except LoaderError Unit × Memory) :=
  let fileSz := phdr.pFilesz
  let memSz := phdr.pMemsz
  if memSz > fileSz then
    match checkedAdd phdr.pVaddr fileSz with
    | none => return (.error .segmentDataOutOfBounds, memory)
    | some bssStart => do
      let bssSize ← sub memSz fileSz
      let (result, memory) ← memory.fillZeros bssStart bssSize
      return (result.mapError fun _ => .segmentDataOutOfBounds, memory)
  else return (.ok (), memory)

/-- The loop over the program headers. The flag records that a header before
this one was loaded. -/
def loadSegments (elfBytes : Bytes) :
    List ProgramHeader → Bool → Memory → Outcome (Except LoaderError Bool × Memory)
  | [], anyLoaded, memory => return (.ok anyLoaded, memory)
  | phdr :: rest, anyLoaded, memory =>
    if phdr.pType ≠ ptLoad then loadSegments elfBytes rest anyLoaded memory
    else if phdr.pFilesz = 0 ∧ phdr.pMemsz = 0 then loadSegments elfBytes rest anyLoaded memory
    else do
      match ← copyFileData memory elfBytes phdr with
      | (.error e, memory) => return (.error e, memory)
      | (.ok (), memory) =>
        match ← zeroFillBss memory phdr with
        | (.error e, memory) => return (.error e, memory)
        | (.ok (), memory) => loadSegments elfBytes rest true memory

/-- The checks of the identification bytes. -/
def checkIdentification (elfBytes : Bytes) : Outcome (Except LoaderError Unit) := do
  if elfBytes.len < 20 then return .error .truncated
  else
    let magic ← elfBytes.slice 0 4
    if magic.toList ≠ [0x7F, 0x45, 0x4C, 0x46] then return .error .notElf
    else if (← elfBytes.index 4) ≠ 2 then return .error .unsupportedArch
    else if (← elfBytes.index 5) ≠ 1 then return .error .unsupportedArch
    else return .ok ()

def loadElf {ParseError : Type} (parse : Bytes → Except ParseError Elf) (memory : Memory)
    (elfBytes : Bytes) : Outcome (Except LoaderError UInt64 × Memory) := do
  match ← checkIdentification elfBytes with
  | .error e => return (.error e, memory)
  | .ok () =>
    match parse elfBytes with
    | .error _ => return (.error .notElf, memory)
    | .ok elf =>
      if elf.eMachine ≠ emAarch64 then return (.error .unsupportedArch, memory)
      else if elf.programHeaders.isEmpty then return (.error .noLoadableSegments, memory)
      else
        match ← loadSegments elfBytes elf.programHeaders false memory with
        | (.error e, memory) => return (.error e, memory)
        | (.ok anyLoaded, memory) =>
          if !anyLoaded then return (.error .noLoadableSegments, memory)
          else return (.ok elf.eEntry, memory)

namespace ProgramHeader

/-- The header's ranges lie inside the file and the memory, in exact integers. -/
def InBounds (phdr : ProgramHeader) (fileLen memLen : Nat) : Prop :=
  (0 < phdr.pFilesz.toNat → phdr.pOffset.toNat + phdr.pFilesz.toNat ≤ fileLen ∧
    phdr.pVaddr.toNat + phdr.pFilesz.toNat ≤ memLen) ∧
  (phdr.pFilesz.toNat < phdr.pMemsz.toNat → phdr.pVaddr.toNat + phdr.pMemsz.toNat ≤ memLen)

instance (phdr : ProgramHeader) (fileLen memLen : Nat) : Decidable (phdr.InBounds fileLen memLen) :=
  inferInstanceAs (Decidable (_ ∧ _))

def isLoad (phdr : ProgramHeader) : Bool := phdr.pType == ptLoad

/-- The header has something to load. -/
def nonempty (phdr : ProgramHeader) : Bool := phdr.pFilesz != 0 || phdr.pMemsz != 0

/-- The address lies in the range that a loadable header writes. -/
def covers (phdr : ProgramHeader) (a : Nat) : Bool :=
  phdr.isLoad && decide (phdr.pVaddr.toNat ≤ a) &&
    decide (a < phdr.pVaddr.toNat + max phdr.pFilesz.toNat phdr.pMemsz.toNat)

def fileData (phdr : ProgramHeader) (file : List UInt8) : List UInt8 :=
  (file.drop phdr.pOffset.toNat).take phdr.pFilesz.toNat

/-- The memory after an in-bounds header. -/
def place (phdr : ProgramHeader) (file : List UInt8) (m : Memory) : Memory :=
  (m.store phdr.pVaddr.toNat (phdr.fileData file)).store
    (phdr.pVaddr.toNat + phdr.pFilesz.toNat)
    (List.replicate (phdr.pMemsz.toNat - phdr.pFilesz.toNat) 0)

/-- The byte that a covering header puts at an address. -/
def byteAt? (phdr : ProgramHeader) (file : List UInt8) (a : Nat) : Option UInt8 :=
  if a < phdr.pVaddr.toNat + phdr.pFilesz.toNat then
    file[phdr.pOffset.toNat + (a - phdr.pVaddr.toNat)]?
  else some 0

/-- The part of the file a header names has the length it names, when it is inside the file. -/
theorem fileData_length {phdr : ProgramHeader} {file : List UInt8}
    (h : phdr.pOffset.toNat + phdr.pFilesz.toNat ≤ file.length) :
    (phdr.fileData file).length = phdr.pFilesz.toNat := by
  rw [fileData, List.length_take, List.length_drop]
  omega

@[simp] theorem place_length (phdr : ProgramHeader) (file : List UInt8) (m : Memory) :
    (phdr.place file m).bytes.length = m.bytes.length := by
  simp [place]

end ProgramHeader

/-- The loop's test that the file data ends inside the file. -/
theorem fileEnd_gt_len_iff (elfBytes : Bytes) {start size : UInt64}
    (hWrap : start.toNat + size.toNat < 2 ^ 64) :
    start + size > elfBytes.len ↔ ¬start.toNat + size.toNat ≤ elfBytes.toList.length := by
  rw [gt_iff_lt, UInt64.lt_iff_toNat_lt, Bytes.toNat_len, toNat_add_of_lt hWrap]
  omega

/-- Slicing does not panic on a range that the loader has checked before. -/
theorem slice_fileData {elfBytes : Bytes} {phdr : ProgramHeader}
    (hInFile : phdr.pOffset.toNat + phdr.pFilesz.toNat ≤ elfBytes.toList.length) :
    elfBytes.slice phdr.pOffset (phdr.pOffset + phdr.pFilesz) =
      .ok (elfBytes.extract phdr.pOffset.toNat phdr.pFilesz.toNat) := by
  have hFile := elfBytes.length_lt
  have hStop : (phdr.pOffset + phdr.pFilesz).toNat = phdr.pOffset.toNat + phdr.pFilesz.toNat :=
    toNat_add_of_lt (by omega)
  rw [Bytes.slice_eq_ok (by omega) (by omega), hStop, Nat.add_sub_cancel_left]

/-- The write of nonempty file data that is all in the file. -/
theorem writeBytes_fileData (memory : Memory) {elfBytes : Bytes} {phdr : ProgramHeader}
    (hPos : 0 < phdr.pFilesz.toNat)
    (hInFile : phdr.pOffset.toNat + phdr.pFilesz.toNat ≤ elfBytes.toList.length) :
    memory.writeBytes phdr.pVaddr (elfBytes.extract phdr.pOffset.toNat phdr.pFilesz.toNat) =
      .ok (if phdr.pVaddr.toNat + phdr.pFilesz.toNat ≤ memory.bytes.length then
          (.ok (), memory.store phdr.pVaddr.toNat (phdr.fileData elfBytes.toList))
        else (.error (.outOfBounds phdr.pVaddr), memory)) := by
  have hData : (elfBytes.extract phdr.pOffset.toNat phdr.pFilesz.toNat).toList =
      phdr.fileData elfBytes.toList := rfl
  have hLength := phdr.fileData_length hInFile
  have hNonempty : phdr.fileData elfBytes.toList ≠ [] := by
    intro hNil
    rw [hNil] at hLength
    exact absurd hLength.symm hPos.ne'
  rw [Memory.writeBytes_eq, hData, hLength]
  simp only [hNonempty, false_or]

/-- The file part is copied when it fits both file and memory, and refused otherwise.
A header without file bytes is never refused here, whatever its offset. -/
theorem copyFileData_eq (memory : Memory) (elfBytes : Bytes) (phdr : ProgramHeader) :
    copyFileData memory elfBytes phdr = .ok
      (if 0 < phdr.pFilesz.toNat →
          phdr.pOffset.toNat + phdr.pFilesz.toNat ≤ elfBytes.toList.length ∧
            phdr.pVaddr.toNat + phdr.pFilesz.toNat ≤ memory.bytes.length then
        (.ok (), memory.store phdr.pVaddr.toNat (phdr.fileData elfBytes.toList))
      else (.error .segmentDataOutOfBounds, memory)) := by
  have hFile := elfBytes.length_lt
  have hPositive : phdr.pFilesz > 0 ↔ 0 < phdr.pFilesz.toNat := UInt64.lt_iff_toNat_lt
  by_cases hPos : 0 < phdr.pFilesz.toNat
  · rw [copyFileData, if_pos (hPositive.mpr hPos)]
    dsimp only
    by_cases hInFile : phdr.pOffset.toNat + phdr.pFilesz.toNat ≤ elfBytes.toList.length
    · have hWrap : phdr.pOffset.toNat + phdr.pFilesz.toNat < 2 ^ 64 := by omega
      have hInside := mt (fileEnd_gt_len_iff elfBytes hWrap).mp (not_not.mpr hInFile)
      rw [checkedAdd_eq_some hWrap]
      simp only [hInside, if_false, slice_fileData hInFile, Outcome.ok_bind,
        writeBytes_fileData memory hPos hInFile]
      by_cases hInMemory : phdr.pVaddr.toNat + phdr.pFilesz.toNat ≤ memory.bytes.length
      · rw [if_pos hInMemory, if_pos (fun _ => ⟨hInFile, hInMemory⟩)]
        rfl
      · rw [if_neg hInMemory, if_neg (fun h => hInMemory (h hPos).2)]
        rfl
    · rw [if_neg (fun h => hInFile (h hPos).1)]
      by_cases hWrap : phdr.pOffset.toNat + phdr.pFilesz.toNat < 2 ^ 64
      · rw [checkedAdd_eq_some hWrap]
        exact if_pos ((fileEnd_gt_len_iff elfBytes hWrap).mpr hInFile)
      · rw [checkedAdd_eq_none (Nat.le_of_not_lt hWrap)]
        rfl
  · rw [copyFileData, if_neg (mt hPositive.mp hPos), if_pos (fun h => (hPos h).elim)]
    have hData : phdr.fileData elfBytes.toList = [] := by
      rw [ProgramHeader.fileData, Nat.eq_zero_of_not_pos hPos, List.take_zero]
    rw [hData, Memory.store_nil]
    rfl

/-- The rest of the segment is cleared when it fits. Sizes in the wrong order skip this step. -/
theorem zeroFillBss_eq (memory : Memory) (phdr : ProgramHeader) :
    zeroFillBss memory phdr = .ok
      (if phdr.pFilesz.toNat < phdr.pMemsz.toNat →
          phdr.pVaddr.toNat + phdr.pMemsz.toNat ≤ memory.bytes.length then
        (.ok (), memory.store (phdr.pVaddr.toNat + phdr.pFilesz.toNat)
          (List.replicate (phdr.pMemsz.toNat - phdr.pFilesz.toNat) 0))
      else (.error .segmentDataOutOfBounds, memory)) := by
  have hSize := memory.bytes_length_lt
  have hLarger : phdr.pMemsz > phdr.pFilesz ↔ phdr.pFilesz.toNat < phdr.pMemsz.toNat :=
    UInt64.lt_iff_toNat_lt
  by_cases hBss : phdr.pFilesz.toNat < phdr.pMemsz.toNat
  · have hLe : phdr.pFilesz ≤ phdr.pMemsz := by
      rw [UInt64.le_iff_toNat_le]
      exact hBss.le
    have hBssSize := toNat_sub_of_le hLe
    rw [zeroFillBss, if_pos (hLarger.mpr hBss)]
    by_cases hWrap : phdr.pVaddr.toNat + phdr.pFilesz.toNat < 2 ^ 64
    · have hStart := toNat_add_of_lt hWrap
      have hFill := memory.fillZeros_eq (phdr.pVaddr + phdr.pFilesz) (phdr.pMemsz - phdr.pFilesz)
      rw [checkedAdd_eq_some hWrap]
      rw [hStart, hBssSize] at hFill
      simp only [sub_eq_ok hLe, Outcome.ok_bind, hFill]
      by_cases hInMemory : phdr.pVaddr.toNat + phdr.pMemsz.toNat ≤ memory.bytes.length
      · rw [if_pos (by omega), if_pos (fun _ => hInMemory)]
        rfl
      · rw [if_neg (by omega), if_neg (fun h => hInMemory (h hBss))]
        rfl
    · rw [checkedAdd_eq_none (by omega), if_neg (fun h => by have := h hBss; omega)]
      rfl
  · rw [zeroFillBss, if_neg (mt hLarger.mp hBss), if_pos (fun h => (hBss h).elim),
      Nat.sub_eq_zero_of_le (by omega), List.replicate_zero, Memory.store_nil]
    rfl

namespace ProgramHeader

/-- The effect of one header of the table on the memory. -/
def apply (file : List UInt8) (m : Memory) (phdr : ProgramHeader) : Memory :=
  if phdr.isLoad then phdr.place file m else m

@[simp] theorem apply_length (file : List UInt8) (m : Memory) (phdr : ProgramHeader) :
    (phdr.apply file m).bytes.length = m.bytes.length := by
  unfold apply
  split <;> simp

/-- Only PT_LOAD headers are looked at; all others are passed over unread. -/
theorem isLoad_iff (phdr : ProgramHeader) : phdr.isLoad = true ↔ phdr.pType = ptLoad := beq_iff_eq

theorem nonempty_eq_false_iff (phdr : ProgramHeader) :
    phdr.nonempty = false ↔ phdr.pFilesz = 0 ∧ phdr.pMemsz = 0 := by
  simp [nonempty]

/-- All loadable headers are in bounds, or one is not. -/
theorem inBounds_or_bad (phdrs : List ProgramHeader) (fileLen memLen : Nat) :
    (∀ phdr ∈ phdrs, phdr.isLoad = true → phdr.InBounds fileLen memLen) ∨
      ∃ phdr ∈ phdrs, phdr.isLoad = true ∧ ¬phdr.InBounds fileLen memLen := by
  by_cases hBounds : ∀ phdr ∈ phdrs, phdr.isLoad = true → phdr.InBounds fileLen memLen
  · exact Or.inl hBounds
  · simpa only [not_forall, exists_prop] using Or.inr hBounds

/-- The memory after a header that is not in bounds: the file data is copied if
that alone is in bounds. -/
def placePart (phdr : ProgramHeader) (file : List UInt8) (m : Memory) : Memory :=
  if 0 < phdr.pFilesz.toNat → phdr.pOffset.toNat + phdr.pFilesz.toNat ≤ file.length ∧
      phdr.pVaddr.toNat + phdr.pFilesz.toNat ≤ m.bytes.length then
    m.store phdr.pVaddr.toNat (phdr.fileData file)
  else m

/-- A header without sizes changes nothing, so it may as well be skipped. -/
theorem place_of_empty {phdr : ProgramHeader} (h : phdr.pFilesz = 0 ∧ phdr.pMemsz = 0)
    (file : List UInt8) (m : Memory) : phdr.place file m = m := by
  simp [place, fileData, h.1, h.2]

end ProgramHeader

/-- The loop passes over an in-bounds header with the header's effect. -/
theorem loadSegments_cons (elfBytes : Bytes) (phdr : ProgramHeader) (rest : List ProgramHeader)
    (anyLoaded : Bool) (memory : Memory)
    (hBounds : phdr.isLoad = true → phdr.InBounds elfBytes.toList.length memory.bytes.length) :
    loadSegments elfBytes (phdr :: rest) anyLoaded memory =
      loadSegments elfBytes rest (anyLoaded || (phdr.isLoad && phdr.nonempty))
        (phdr.apply elfBytes.toList memory) := by
  rw [loadSegments]
  cases hLoad : phdr.isLoad with
  | false =>
      have hType : phdr.pType ≠ ptLoad := by
        rw [Ne, ← phdr.isLoad_iff, hLoad]
        exact Bool.false_ne_true
      rw [if_pos hType, ProgramHeader.apply, hLoad, Bool.false_and, Bool.or_false]
      rfl
  | true =>
      rw [if_neg (not_not_intro (phdr.isLoad_iff.mp hLoad)), ProgramHeader.apply, if_pos hLoad]
      cases hNonempty : phdr.nonempty with
      | false =>
          have hSizes := phdr.nonempty_eq_false_iff.mp hNonempty
          rw [if_pos hSizes, ProgramHeader.place_of_empty hSizes, Bool.and_false, Bool.or_false]
      | true =>
          have hSizes : ¬(phdr.pFilesz = 0 ∧ phdr.pMemsz = 0) := by
            rw [← phdr.nonempty_eq_false_iff, hNonempty]
            exact Bool.noConfusion
          obtain ⟨hData, hBss⟩ := hBounds hLoad
          have hZero := zeroFillBss_eq
            (memory.store phdr.pVaddr.toNat (phdr.fileData elfBytes.toList)) phdr
          rw [if_pos (by simpa using hBss)] at hZero
          rw [if_neg hSizes, copyFileData_eq, if_pos hData, Outcome.ok_bind]
          dsimp only
          rw [hZero, Outcome.ok_bind, Bool.and_true, Bool.or_true]
          rfl

/-- The first header out of bounds ends the load. What was written before it stays written. -/
theorem loadSegments_cons_error (elfBytes : Bytes) (phdr : ProgramHeader)
    (rest : List ProgramHeader) (anyLoaded : Bool) (memory : Memory) (hLoad : phdr.isLoad = true)
    (hBounds : ¬phdr.InBounds elfBytes.toList.length memory.bytes.length) :
    loadSegments elfBytes (phdr :: rest) anyLoaded memory =
      .ok (.error .segmentDataOutOfBounds, phdr.placePart elfBytes.toList memory) := by
  have hSizes : ¬(phdr.pFilesz = 0 ∧ phdr.pMemsz = 0) := by
    rintro ⟨hFilesz, hMemsz⟩
    exact hBounds ⟨by simp [hFilesz], by simp [hMemsz]⟩
  rw [loadSegments, if_neg (not_not_intro (phdr.isLoad_iff.mp hLoad)), if_neg hSizes,
    copyFileData_eq]
  by_cases hData : 0 < phdr.pFilesz.toNat →
      phdr.pOffset.toNat + phdr.pFilesz.toNat ≤ elfBytes.toList.length ∧
        phdr.pVaddr.toNat + phdr.pFilesz.toNat ≤ memory.bytes.length
  · have hZero := zeroFillBss_eq
      (memory.store phdr.pVaddr.toNat (phdr.fileData elfBytes.toList)) phdr
    rw [if_neg (fun hBss => hBounds ⟨hData, by simpa using hBss⟩)] at hZero
    rw [if_pos hData, Outcome.ok_bind, ProgramHeader.placePart, if_pos hData]
    dsimp only
    rw [hZero]
    rfl
  · rw [if_neg hData, ProgramHeader.placePart, if_neg hData]
    rfl

/-- When all loadable headers are in bounds, the loop applies the headers in
table order. -/
theorem loadSegments_ok (elfBytes : Bytes) {phdrs : List ProgramHeader} (anyLoaded : Bool)
    {memory : Memory} (hBounds : ∀ phdr ∈ phdrs, phdr.isLoad = true →
      phdr.InBounds elfBytes.toList.length memory.bytes.length) :
    loadSegments elfBytes phdrs anyLoaded memory =
      .ok (.ok (anyLoaded || phdrs.any fun phdr => phdr.isLoad && phdr.nonempty),
        phdrs.foldl (ProgramHeader.apply elfBytes.toList) memory) := by
  induction phdrs generalizing anyLoaded memory with
  | nil => simp [loadSegments]
  | cons phdr rest ih =>
      have hFirst := hBounds phdr (List.mem_cons_self ..)
      rw [loadSegments_cons elfBytes phdr rest anyLoaded memory hFirst, ih, List.any_cons,
        Bool.or_assoc, List.foldl_cons]
      intro other hOther
      rw [ProgramHeader.apply_length]
      exact hBounds other (List.mem_cons_of_mem _ hOther)

/-- The headers up to the first loadable one out of bounds have their effect, and
of that one the file data at most. -/
structure FirstBad (elfBytes : Bytes) (phdrs : List ProgramHeader) (memory final : Memory)
    (before : List ProgramHeader) (bad : ProgramHeader) (after : List ProgramHeader) : Prop where
  split : phdrs = before ++ bad :: after
  inBounds : ∀ phdr ∈ before, phdr.isLoad = true →
    phdr.InBounds elfBytes.toList.length memory.bytes.length
  isLoad : bad.isLoad = true
  out : ¬bad.InBounds elfBytes.toList.length memory.bytes.length
  final : final = bad.placePart elfBytes.toList
    (before.foldl (ProgramHeader.apply elfBytes.toList) memory)

/-- One loadable header out of bounds makes the loop fail, wherever it stands. -/
theorem loadSegments_error (elfBytes : Bytes) {phdrs : List ProgramHeader} (anyLoaded : Bool)
    {memory : Memory} (hBad : ∃ phdr ∈ phdrs, phdr.isLoad = true ∧
      ¬phdr.InBounds elfBytes.toList.length memory.bytes.length) :
    ∃ final before bad after, loadSegments elfBytes phdrs anyLoaded memory =
      .ok (.error .segmentDataOutOfBounds, final) ∧
      FirstBad elfBytes phdrs memory final before bad after := by
  induction phdrs generalizing anyLoaded memory with
  | nil =>
      obtain ⟨phdr, hMem, -⟩ := hBad
      cases hMem
  | cons phdr rest ih =>
      by_cases hHead : phdr.isLoad = true → phdr.InBounds elfBytes.toList.length memory.bytes.length
      · obtain ⟨other, hMem, hLoad, hOut⟩ := hBad
        have hRest : other ∈ rest := by
          rcases List.mem_cons.mp hMem with rfl | hRest
          · exact (hOut (hHead hLoad)).elim
          · exact hRest
        obtain ⟨final, before, bad, after, hLoop, h⟩ :=
          ih (anyLoaded || (phdr.isLoad && phdr.nonempty))
            ⟨other, hRest, hLoad, (phdr.apply_length elfBytes.toList memory).symm ▸ hOut⟩
        refine ⟨final, phdr :: before, bad, after, ?_, ?_⟩
        · rw [loadSegments_cons elfBytes phdr rest anyLoaded memory hHead, hLoop]
        · obtain ⟨hSplit, hBefore, hIsLoad, hBadOut, hFinal⟩ := h
          rw [ProgramHeader.apply_length] at hBefore hBadOut
          refine ⟨congrArg _ hSplit, fun p hp => ?_, hIsLoad, hBadOut, hFinal⟩
          rcases List.mem_cons.mp hp with rfl | hp
          · exact hHead
          · exact hBefore p hp
      · obtain ⟨hLoad, hOut⟩ := Classical.not_imp.mp hHead
        exact ⟨_, [], phdr, rest, loadSegments_cons_error elfBytes phdr rest anyLoaded memory
          hLoad hOut, rfl, List.forall_mem_nil _, hLoad, hOut, rfl⟩

namespace ProgramHeader

/-- The file part of a placed segment holds the bytes of the file. -/
theorem getElem?_place_data {phdr : ProgramHeader} {file : List UInt8} {m : Memory}
    (hBounds : phdr.InBounds file.length m.bytes.length) {a : Nat}
    (hStart : phdr.pVaddr.toNat ≤ a) (hEnd : a < phdr.pVaddr.toNat + phdr.pFilesz.toNat) :
    (phdr.place file m).bytes[a]? = file[phdr.pOffset.toNat + (a - phdr.pVaddr.toNat)]? := by
  obtain ⟨hInFile, hInMemory⟩ := hBounds.1 (by omega)
  have hLength := fileData_length hInFile
  rw [place, Memory.bytes_store, List.getElem?_overwrite_outside (Or.inl hEnd), Memory.bytes_store,
    List.getElem?_overwrite_inside (by omega) hStart (by omega), fileData,
    List.getElem?_take_of_lt (by omega), List.getElem?_drop]

/-- The rest of a placed segment is zero, whatever the memory held there. -/
theorem getElem?_place_bss {phdr : ProgramHeader} {file : List UInt8} {m : Memory}
    (hBounds : phdr.InBounds file.length m.bytes.length) {a : Nat}
    (hStart : phdr.pVaddr.toNat + phdr.pFilesz.toNat ≤ a)
    (hEnd : a < phdr.pVaddr.toNat + phdr.pMemsz.toNat) :
    (phdr.place file m).bytes[a]? = some 0 := by
  have hInMemory := hBounds.2 (by omega)
  rw [place, Memory.bytes_store, List.getElem?_overwrite_inside _ hStart]
  · rw [List.getElem?_replicate, if_pos (by omega)]
  · rw [List.length_replicate]
    omega
  · rw [List.length_replicate, Memory.bytes_store, List.length_overwrite]
    omega

/-- Placing a segment leaves every byte outside it as it was. -/
theorem getElem?_place_outside {phdr : ProgramHeader} {file : List UInt8} {m : Memory} {a : Nat}
    (hOutside : a < phdr.pVaddr.toNat ∨
      phdr.pVaddr.toNat + max phdr.pFilesz.toNat phdr.pMemsz.toNat ≤ a) :
    (phdr.place file m).bytes[a]? = m.bytes[a]? := by
  have hLength : (phdr.fileData file).length ≤ phdr.pFilesz.toNat := List.length_take_le ..
  rw [place, Memory.bytes_store, List.getElem?_overwrite_outside, Memory.bytes_store,
    List.getElem?_overwrite_outside]
  · omega
  · rw [List.length_replicate]
    omega

/-- After an in-bounds header an address holds the header's byte, or what it
held before when the header does not cover it. -/
theorem getElem?_apply {phdr : ProgramHeader} {file : List UInt8} {m : Memory}
    (hBounds : phdr.isLoad = true → phdr.InBounds file.length m.bytes.length) (a : Nat) :
    (phdr.apply file m).bytes[a]? = if phdr.covers a then phdr.byteAt? file a else m.bytes[a]? := by
  cases hLoad : phdr.isLoad with
  | false => simp [apply, covers, hLoad]
  | true =>
      have hIn := hBounds hLoad
      rw [apply, if_pos hLoad]
      by_cases hStart : phdr.pVaddr.toNat ≤ a
      · by_cases hEnd : a < phdr.pVaddr.toNat + max phdr.pFilesz.toNat phdr.pMemsz.toNat
        · rw [if_pos (by simp [covers, hLoad, hStart, hEnd]), byteAt?]
          split
          · rename_i hData
            exact getElem?_place_data hIn hStart hData
          · exact getElem?_place_bss hIn (by omega) (by omega)
        · rw [if_neg (by simp only [covers, hEnd]; simp), getElem?_place_outside (by omega)]
      · rw [if_neg (by simp [covers, hStart]), getElem?_place_outside (by omega)]

/-- After all headers an address holds the byte of the last header covering it. -/
theorem getElem?_foldl_apply {phdrs : List ProgramHeader} {file : List UInt8} {m : Memory}
    (hBounds : ∀ phdr ∈ phdrs, phdr.isLoad = true → phdr.InBounds file.length m.bytes.length)
    (a : Nat) :
    (phdrs.foldl (apply file) m).bytes[a]? =
      match phdrs.reverse.find? (·.covers a) with
      | some phdr => phdr.byteAt? file a
      | none => m.bytes[a]? := by
  induction phdrs generalizing m with
  | nil => rfl
  | cons phdr rest ih =>
      have hHead := getElem?_apply (hBounds phdr (List.mem_cons_self ..)) a
      rw [List.foldl_cons, ih, List.reverse_cons, List.find?_append, hHead]
      · cases rest.reverse.find? (·.covers a) with
        | some last => rfl
        | none => cases hCovers : phdr.covers a <;> simp [hCovers]
      · intro other hOther
        rw [apply_length]
        exact hBounds other (List.mem_cons_of_mem _ hOther)

theorem foldl_apply_length (phdrs : List ProgramHeader) (file : List UInt8) (m : Memory) :
    (phdrs.foldl (apply file) m).bytes.length = m.bytes.length := by
  induction phdrs generalizing m with
  | nil => rfl
  | cons phdr rest ih => rw [List.foldl_cons, ih, apply_length]

end ProgramHeader

/-- The identification checks pass. -/
def PassesIdentification (elfBytes : Bytes) : Prop :=
  20 ≤ elfBytes.toList.length ∧ elfBytes.toList.take 4 = [0x7F, 0x45, 0x4C, 0x46] ∧
    elfBytes.toList[4]? = some 2 ∧ elfBytes.toList[5]? = some 1

theorem checkIdentification_ok {elfBytes : Bytes} (h : PassesIdentification elfBytes) :
    checkIdentification elfBytes = .ok (.ok ()) := by
  obtain ⟨hSize, hMagic, hClass, hData⟩ := h
  have hLen : ¬elfBytes.len < 20 := by
    rw [UInt64.lt_iff_toNat_lt, Bytes.toNat_len]
    exact Nat.not_lt_of_le hSize
  have hSlice : elfBytes.slice 0 4 = .ok (elfBytes.extract 0 4) :=
    Bytes.slice_eq_ok (by decide) (le_trans (by decide) hSize)
  have hIndex4 : elfBytes.index 4 = .ok 2 := by
    rw [Bytes.index, show (4 : UInt64).toNat = 4 from rfl, hClass]
  have hIndex5 : elfBytes.index 5 = .ok 1 := by
    rw [Bytes.index, show (5 : UInt64).toNat = 5 from rfl, hData]
  simp [checkIdentification, hLen, hSlice, hMagic, hIndex4, hIndex5]

section Load

variable {ParseError : Type} {parse : Bytes → Except ParseError Elf} {elfBytes : Bytes} {elf : Elf}

/-- Past the header checks the outcome is that of the loop. -/
theorem loadElf_of_checks (hIdent : PassesIdentification elfBytes)
    (hParse : parse elfBytes = .ok elf) (hMachine : elf.eMachine = emAarch64) (memory : Memory) :
    loadElf parse memory elfBytes =
      (loadSegments elfBytes elf.programHeaders false memory >>= fun out =>
        match out with
        | (.error e, memory) => .ok (.error e, memory)
        | (.ok anyLoaded, memory) =>
          .ok (if anyLoaded then .ok elf.eEntry else .error .noLoadableSegments, memory)) := by
  rw [loadElf, checkIdentification_ok hIdent, Outcome.ok_bind]
  dsimp only
  rw [hParse]
  dsimp only
  rw [if_neg (not_not_intro hMachine)]
  cases hHeaders : elf.programHeaders with
  | nil => rfl
  | cons phdr rest =>
      rw [List.isEmpty_cons, if_neg Bool.false_ne_true]
      congr 1
      funext out
      rcases out with ⟨e | anyLoaded, final⟩
      · rfl
      · cases anyLoaded <;> rfl

/-- With all headers in bounds, the load succeeds exactly when one of them is not empty. -/
theorem loadElf_in_bounds (hIdent : PassesIdentification elfBytes)
    (hParse : parse elfBytes = .ok elf) (hMachine : elf.eMachine = emAarch64) {memory : Memory}
    (hBounds : ∀ phdr ∈ elf.programHeaders, phdr.isLoad = true →
      phdr.InBounds elfBytes.toList.length memory.bytes.length) :
    loadElf parse memory elfBytes = .ok
      (if elf.programHeaders.any fun phdr => phdr.isLoad && phdr.nonempty then .ok elf.eEntry
        else .error .noLoadableSegments,
      elf.programHeaders.foldl (ProgramHeader.apply elfBytes.toList) memory) := by
  rw [loadElf_of_checks hIdent hParse hMachine, loadSegments_ok elfBytes false hBounds,
    Outcome.ok_bind, Bool.false_or]

/-- With a header out of bounds, the load reports the first such header. The memory is then
that of the headers before it, with at most the file part of the bad one. -/
theorem loadElf_out_of_bounds (hIdent : PassesIdentification elfBytes)
    (hParse : parse elfBytes = .ok elf) (hMachine : elf.eMachine = emAarch64) {memory : Memory}
    (hBad : ∃ phdr ∈ elf.programHeaders, phdr.isLoad = true ∧
      ¬phdr.InBounds elfBytes.toList.length memory.bytes.length) :
    ∃ final before bad after, loadElf parse memory elfBytes =
      .ok (.error .segmentDataOutOfBounds, final) ∧
      FirstBad elfBytes elf.programHeaders memory final before bad after := by
  obtain ⟨final, before, bad, after, hLoop, hFirst⟩ := loadSegments_error elfBytes false hBad
  refine ⟨final, before, bad, after, ?_, hFirst⟩
  rw [loadElf_of_checks hIdent hParse hMachine, hLoop]
  rfl

/-- What a load returned and left in memory, for a file past the header checks. -/
structure LoadReport (elfBytes : Bytes) (elf : Elf) (memory final : Memory)
    (result : Except LoaderError UInt64) : Prop where
  ok : ∀ entry, result = .ok entry ↔ entry = elf.eEntry ∧
    (∃ phdr ∈ elf.programHeaders, phdr.pType = ptLoad ∧ (phdr.pFilesz ≠ 0 ∨ phdr.pMemsz ≠ 0)) ∧
    ∀ phdr ∈ elf.programHeaders, phdr.pType = ptLoad →
      phdr.InBounds elfBytes.toList.length memory.bytes.length
  outOfBounds : (∃ phdr ∈ elf.programHeaders, phdr.pType = ptLoad ∧
    ¬phdr.InBounds elfBytes.toList.length memory.bytes.length) →
      result = .error .segmentDataOutOfBounds
  nothingToLoad : (∀ phdr ∈ elf.programHeaders, phdr.pType = ptLoad →
      phdr.InBounds elfBytes.toList.length memory.bytes.length) →
    (¬∃ phdr ∈ elf.programHeaders, phdr.pType = ptLoad ∧ (phdr.pFilesz ≠ 0 ∨ phdr.pMemsz ≠ 0)) →
      result = .error .noLoadableSegments
  bytes : (∃ entry, result = .ok entry) → final.bytes.length = memory.bytes.length ∧
    ∀ a < memory.bytes.length, final.bytes[a]? =
      match elf.programHeaders.reverse.find? (·.covers a) with
      | some phdr => phdr.byteAt? elfBytes.toList a
      | none => memory.bytes[a]?

theorem any_load_iff (phdrs : List ProgramHeader) :
    (phdrs.any fun phdr => phdr.isLoad && phdr.nonempty) = true ↔
      ∃ phdr ∈ phdrs, phdr.pType = ptLoad ∧ (phdr.pFilesz ≠ 0 ∨ phdr.pMemsz ≠ 0) := by
  simp [List.any_eq_true, ProgramHeader.isLoad, ProgramHeader.nonempty]

/-- A load never panics, whatever the headers say, and reports as stated. The headers are those
that the parser returns; whether it has read them right is not asked. -/
theorem load_elf_reports (parse : Bytes → Except ParseError Elf) (elfBytes : Bytes) (elf : Elf)
    (memory : Memory) (hIdent : PassesIdentification elfBytes) (hParse : parse elfBytes = .ok elf)
    (hMachine : elf.eMachine = emAarch64) :
    ∃ result final, loadElf parse memory elfBytes = .ok (result, final) ∧
      LoadReport elfBytes elf memory final result := by
  rcases ProgramHeader.inBounds_or_bad elf.programHeaders elfBytes.toList.length
    memory.bytes.length with hBounds | hBad
  · have hNoneBad : ∀ phdr ∈ elf.programHeaders, phdr.pType = ptLoad →
        phdr.InBounds elfBytes.toList.length memory.bytes.length :=
      fun phdr hMem hType => hBounds phdr hMem (phdr.isLoad_iff.mpr hType)
    refine ⟨_, _, loadElf_in_bounds hIdent hParse hMachine hBounds, ?_, ?_, ?_, ?_⟩
    · intro entry
      rw [← any_load_iff]
      split
      · rename_i hAny
        simp only [Except.ok.injEq, hAny, true_and]
        exact ⟨fun hEq => ⟨hEq.symm, hNoneBad⟩, fun h => h.1.symm⟩
      · rename_i hAny
        simp [hAny]
    · rintro ⟨phdr, hMem, hType, hOut⟩
      exact (hOut (hNoneBad phdr hMem hType)).elim
    · intro _ hNothing
      rw [← any_load_iff] at hNothing
      exact if_neg hNothing
    · rintro -
      exact ⟨ProgramHeader.foldl_apply_length _ _ _,
        fun a _ => ProgramHeader.getElem?_foldl_apply hBounds a⟩
  · have hSomeBad : ¬∀ phdr ∈ elf.programHeaders, phdr.pType = ptLoad →
        phdr.InBounds elfBytes.toList.length memory.bytes.length := by
      obtain ⟨phdr, hMem, hLoad, hOut⟩ := hBad
      exact fun hAll => hOut (hAll phdr hMem (phdr.isLoad_iff.mp hLoad))
    obtain ⟨final, -, -, -, hLoad, -⟩ := loadElf_out_of_bounds hIdent hParse hMachine hBad
    refine ⟨_, final, hLoad, ?_, fun _ => rfl, fun hAll => (hSomeBad hAll).elim, ?_⟩
    · intro entry
      exact ⟨fun hEq => (nomatch hEq), fun h => (hSomeBad h.2.2).elim⟩
    · rintro ⟨entry, hEq⟩
      cases hEq

end Load

/-- A little-endian field of a file. -/
def storedField (file : List UInt8) (offset size : Nat) : Nat :=
  LittleEndian.value ((file.drop offset).take size)

/-- The header fields as stored in a 64-bit little-endian ELF file. -/
def storedHeaders (elfBytes : Bytes) : Except Unit Elf :=
  let field := storedField elfBytes.toList
  let phoff := field 32 8
  let phnum := field 56 2
  .ok {
    eType := UInt16.ofNat (field 16 2)
    eMachine := UInt16.ofNat (field 18 2)
    eEntry := UInt64.ofNat (field 24 8)
    programHeaders := (List.range phnum).map fun i =>
      let base := phoff + 56 * i
      { pType := UInt32.ofNat (field base 4)
        pOffset := UInt64.ofNat (field (base + 8) 8)
        pVaddr := UInt64.ofNat (field (base + 16) 8)
        pFilesz := UInt64.ofNat (field (base + 32) 8)
        pMemsz := UInt64.ofNat (field (base + 40) 8) } }

/-- A minimal executable with one loadable segment at its entry. -/
def buildElf (entry : UInt64) (segment : List UInt8) : List UInt8 :=
  let le := LittleEndian.encode
  [0x7F, 0x45, 0x4C, 0x46, 2, 1, 1, 0, 0] ++ List.replicate 7 0 ++
    le 2 2 ++ le 2 0xB7 ++ le 4 1 ++ le 8 entry.toNat ++ le 8 64 ++ le 8 0 ++ le 4 0 ++
    le 2 64 ++ le 2 56 ++ le 2 1 ++ le 2 64 ++ le 2 0 ++ le 2 0 ++
    le 4 1 ++ le 4 7 ++ le 8 120 ++ le 8 entry.toNat ++ le 8 entry.toNat ++
    le 8 segment.length ++ le 8 segment.length ++ le 8 0x1000 ++ segment

/-- One segment with the word of RET, at address 8. -/
def retElf : Bytes := ⟨buildElf 8 [0xC0, 0x03, 0x5F, 0xD6], by decide +kernel⟩

def retHeaders : Elf := ⟨2, 0xB7, 8, [⟨1, 120, 8, 4, 4⟩]⟩

theorem load_elf_reports_retElf : ∃ result final,
    loadElf storedHeaders (Memory.new 16) retElf = .ok (result, final) ∧
      LoadReport retElf retHeaders (Memory.new 16) final result :=
  load_elf_reports storedHeaders retElf retHeaders (Memory.new 16)
    (by unfold PassesIdentification; decide +kernel) (by decide +kernel) rfl

end Simulator
