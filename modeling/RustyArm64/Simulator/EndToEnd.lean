import RustyArm64.Simulator.Loader
import RustyArm64.Simulator.Run

/-! From an ELF image to the end of its run: the segment that the loader copies
is the program that the CPU executes. -/
namespace Simulator

/-- The little-endian bytes of a program. -/
def wordBytes (words : List UInt32) : List UInt8 := words.flatMap toLeBytes

@[simp] theorem wordBytes_length (words : List UInt32) :
    (wordBytes words).length = 4 * words.length := by
  induction words with
  | nil => rfl
  | cons word rest ih =>
      rw [wordBytes, List.flatMap_cons, List.length_append, toLeBytes_length]
      rw [wordBytes] at ih
      rw [ih, List.length_cons]
      omega

theorem wordBytes_at (words : List UInt32) (k : Nat) (hk : k < words.length) :
    ((wordBytes words).drop (4 * k)).take 4 = toLeBytes words[k] := by
  have hSplit : wordBytes words =
      wordBytes (words.take k) ++ (toLeBytes words[k] ++ wordBytes (words.drop (k + 1))) := by
    conv_lhs => rw [← List.take_append_drop k words, List.drop_eq_getElem_cons hk]
    simp only [wordBytes, List.flatMap_append, List.flatMap_cons]
  have hBefore : (wordBytes (words.take k)).length = 4 * k := by
    rw [wordBytes_length, List.length_take, Nat.min_eq_left hk.le]
  rw [hSplit, List.drop_left' hBefore, List.take_left' (toLeBytes_length _)]

namespace Memory

/-- The words read back from a range that holds their bytes. -/
theorem word?_of_bytes {m : Memory} {words : List UInt32} {a : Nat}
    (hFits : a + 4 * words.length ≤ m.bytes.length)
    (hBytes : ∀ i < 4 * words.length, m.bytes[a + i]? = (wordBytes words)[i]?)
    (k : Nat) (hk : k < words.length) : m.word? (a + 4 * k) = some words[k] := by
  have hRange : (m.bytes.drop (a + 4 * k)).take 4 = ((wordBytes words).drop (4 * k)).take 4 := by
    apply List.ext_getElem?
    intro i
    by_cases hi : i < 4
    · rw [List.getElem?_take_of_lt hi, List.getElem?_take_of_lt hi, List.getElem?_drop,
        List.getElem?_drop, Nat.add_assoc]
      exact hBytes (4 * k + i) (by omega)
    · rw [List.getElem?_take_eq_none (by omega), List.getElem?_take_eq_none (by omega)]
  rw [word?_eq_some (by omega), hRange, wordBytes_at words k hk, fromLeBytes_toLeBytes]

/-- A memory holds a program if its words lie there and decode to instructions that do not
halt. The word behind the last of them is not asked for. -/
theorem holds_of_words {m : Memory} {words : List UInt32} {program : List Instruction} {a : Nat}
    (hDecode : words.map decode = program.map .ok) (hHlt : ∀ inst ∈ program, inst.isHlt = false)
    (hWords : ∀ (k : Nat) (hk : k < words.length), m.word? (a + 4 * k) = some words[k]) :
    m.Holds a program := by
  induction program generalizing words a with
  | nil => trivial
  | cons inst rest ih =>
      cases words with
      | nil => cases hDecode
      | cons word others =>
          obtain ⟨hHead, hTail⟩ := List.cons.inj hDecode
          refine ⟨?_, hHlt inst (List.mem_cons_self ..), ?_⟩
          · have hWord := hWords 0 (Nat.zero_lt_succ _)
            rw [Nat.mul_zero, Nat.add_zero] at hWord
            rw [site, hWord]
            simp only [List.getElem_cons_zero, hHead]
          · refine ih hTail (fun other hOther => hHlt other (List.mem_cons_of_mem _ hOther)) ?_
            intro k hk
            have hWord := hWords (k + 1) (Nat.succ_lt_succ hk)
            rw [show a + 4 * (k + 1) = a + 4 + 4 * k by omega] at hWord
            exact hWord

end Memory

/-- An ELF image of a program: the words `ws` and a final HLT stand in one
segment at the entry point, and no other loadable segment writes there. -/
structure ProgramImage {ParseError : Type} (parse : Bytes → Except ParseError Elf)
    (elfBytes : Bytes) (elf : Elf) (ws : List UInt32) (h : UInt32) (size : UInt64) : Prop where
  identified : PassesIdentification elfBytes
  parsed : parse elfBytes = .ok elf
  machine : elf.eMachine = emAarch64
  words : ∀ word ∈ ws, ∃ inst, decode word = .ok inst ∧ inst.isHlt = false
  final : ∃ imm16, decode h = .ok (.hlt imm16)
  fits : elf.eEntry.toNat + 4 * (ws.length + 1) ≤ size.toNat
  segment : ∃ before seg after, elf.programHeaders = before ++ seg :: after ∧
    seg.pType = ptLoad ∧ seg.pVaddr = elf.eEntry ∧
    seg.pFilesz.toNat = 4 * (ws.length + 1) ∧ seg.pMemsz = seg.pFilesz ∧
    seg.pOffset.toNat + seg.pFilesz.toNat ≤ elfBytes.toList.length ∧
    seg.fileData elfBytes.toList = wordBytes (ws ++ [h]) ∧
    ∀ other ∈ before ++ after, other.pType = ptLoad →
      other.InBounds elfBytes.toList.length size.toNat ∧
      ∀ a, elf.eEntry.toNat ≤ a → a < elf.eEntry.toNat + 4 * (ws.length + 1) →
        other.covers a = false

/-- Words that decode are a program. -/
theorem exists_decoded {ws : List UInt32}
    (hWords : ∀ word ∈ ws, ∃ inst, decode word = .ok inst ∧ inst.isHlt = false) :
    ∃ program : List Instruction, ws.map decode = program.map .ok ∧
      program.length = ws.length ∧ ∀ inst ∈ program, inst.isHlt = false := by
  induction ws with
  | nil => exact ⟨[], rfl, rfl, fun _ hInst => by cases hInst⟩
  | cons word rest ih =>
      obtain ⟨inst, hDecode, hHlt⟩ := hWords word (List.mem_cons_self ..)
      obtain ⟨program, hRest, hCount, hProgram⟩ :=
        ih fun other hOther => hWords other (List.mem_cons_of_mem _ hOther)
      refine ⟨inst :: program, ?_, by simp [hCount], List.forall_mem_cons.mpr ⟨hHlt, hProgram⟩⟩
      rw [List.map_cons, List.map_cons, hDecode, hRest]

/-- The last header that covers an address is found behind all that do not. -/
theorem find?_covering {before after : List ProgramHeader} {seg : ProgramHeader} {a : Nat}
    (hSeg : seg.covers a = true) (hAfter : ∀ other ∈ after, other.covers a = false) :
    (before ++ seg :: after).reverse.find? (·.covers a) = some seg := by
  have hNone : after.reverse.find? (·.covers a) = none := by
    rw [List.find?_eq_none]
    intro other hOther
    rw [hAfter other (List.mem_reverse.mp hOther)]
    exact Bool.false_ne_true
  have hFound : [seg].find? (·.covers a) = some seg := by simp [hSeg]
  rw [List.reverse_append, List.reverse_cons, List.find?_append, List.find?_append, hNone, hFound]
  rfl

namespace ProgramImage

variable {ParseError : Type} {parse : Bytes → Except ParseError Elf} {elfBytes : Bytes} {elf : Elf}
  {ws : List UInt32} {h : UInt32} {size : UInt64}

/-- The image of a program comes from a PT_LOAD header that is not empty. -/
theorem loadsHeader (hImage : ProgramImage parse elfBytes elf ws h size) :
    (elf.programHeaders.any fun phdr => phdr.isLoad && phdr.nonempty) = true := by
  obtain ⟨before, seg, after, hHeaders, hType, -, hFilesz, -⟩ := hImage.segment
  rw [any_load_iff]
  refine ⟨seg, by simp [hHeaders], hType, Or.inl fun hZero => ?_⟩
  rw [hZero] at hFilesz
  exact absurd hFilesz (by simp)

/-- The program's segment and, by assumption, all others are in bounds. -/
theorem inBounds (hImage : ProgramImage parse elfBytes elf ws h size) :
    ∀ phdr ∈ elf.programHeaders, phdr.isLoad = true →
      phdr.InBounds elfBytes.toList.length size.toNat := by
  obtain ⟨before, seg, after, hHeaders, -, hVaddr, hFilesz, hMemsz, hInFile, -, hOthers⟩ :=
    hImage.segment
  have hFits := hImage.fits
  have hSeg : seg.InBounds elfBytes.toList.length size.toNat := by
    refine ⟨fun _ => ⟨hInFile, ?_⟩, fun hBss => ?_⟩
    · rw [hVaddr, hFilesz]
      exact hFits
    · rw [hMemsz] at hBss
      omega
  intro phdr hMem hLoad
  rw [hHeaders, List.mem_append, List.mem_cons] at hMem
  rcases hMem with hBefore | rfl | hAfter
  · exact (hOthers phdr (List.mem_append_left _ hBefore) (phdr.isLoad_iff.mp hLoad)).1
  · exact hSeg
  · exact (hOthers phdr (List.mem_append_right _ hAfter) (phdr.isLoad_iff.mp hLoad)).1

/-- The last header that covers a byte of the program puts that byte there. -/
theorem byte_covered (hImage : ProgramImage parse elfBytes elf ws h size) {i : Nat}
    (hi : i < 4 * (ws.length + 1)) :
    ∃ seg, elf.programHeaders.reverse.find? (·.covers (elf.eEntry.toNat + i)) = some seg ∧
      seg.byteAt? elfBytes.toList (elf.eEntry.toNat + i) = (wordBytes (ws ++ [h]))[i]? := by
  obtain ⟨before, seg, after, hHeaders, hType, hVaddr, hFilesz, hMemsz, -, hData, hOthers⟩ :=
    hImage.segment
  have hCovers : seg.covers (elf.eEntry.toNat + i) = true := by
    simp only [ProgramHeader.covers, seg.isLoad_iff.mpr hType, hVaddr, hMemsz, hFilesz,
      Nat.max_self]
    simp [hi]
  have hNotAfter : ∀ other ∈ after, other.covers (elf.eEntry.toNat + i) = false := by
    intro other hOther
    cases hOtherLoad : other.isLoad with
    | false => simp [ProgramHeader.covers, hOtherLoad]
    | true =>
        have hFree := (hOthers other (List.mem_append_right _ hOther)
          (other.isLoad_iff.mp hOtherLoad)).2
        exact hFree _ (by omega) (by omega)
  refine ⟨seg, ?_, ?_⟩
  · rw [hHeaders, find?_covering hCovers hNotAfter]
  · rw [ProgramHeader.byteAt?, hVaddr, hFilesz, if_pos (by omega), Nat.add_sub_cancel_left,
      ← hData, ProgramHeader.fileData, List.getElem?_take_of_lt (by omega), List.getElem?_drop]

/-- The load succeeds and leaves the bytes of the program at the entry point. -/
theorem loads (hImage : ProgramImage parse elfBytes elf ws h size) :
    ∃ mem, loadElf parse (Memory.new size) elfBytes = .ok (.ok elf.eEntry, mem) ∧
      mem.bytes.length = size.toNat ∧
      ∀ i < 4 * (ws ++ [h]).length,
        mem.bytes[elf.eEntry.toNat + i]? = (wordBytes (ws ++ [h]))[i]? := by
  have hSize : (Memory.new size).bytes.length = size.toNat := by simp
  have hBounds := hImage.inBounds
  rw [← hSize] at hBounds
  have hLoad := loadElf_in_bounds hImage.identified hImage.parsed hImage.machine hBounds
  rw [if_pos hImage.loadsHeader] at hLoad
  refine ⟨_, hLoad, ?_, ?_⟩
  · rw [ProgramHeader.foldl_apply_length, hSize]
  · intro i hi
    rw [List.length_append, List.length_singleton] at hi
    obtain ⟨seg, hFound, hByte⟩ := hImage.byte_covered hi
    rw [ProgramHeader.getElem?_foldl_apply hBounds, hFound]
    exact hByte

/-- After the load the decoded program stands at the entry point, with a HLT
behind it. -/
theorem holds (hImage : ProgramImage parse elfBytes elf ws h size) :
    ∃ mem program imm16, loadElf parse (Memory.new size) elfBytes = .ok (.ok elf.eEntry, mem) ∧
      ws.map decode = program.map .ok ∧ program.length = ws.length ∧
      mem.Holds elf.eEntry.toNat program ∧
      mem.site (elf.eEntry.toNat + 4 * program.length) = .instruction (.hlt imm16) := by
  obtain ⟨mem, hLoad, hLength, hBytes⟩ := hImage.loads
  obtain ⟨program, hDecode, hCount, hHlt⟩ := exists_decoded hImage.words
  obtain ⟨imm16, hFinal⟩ := hImage.final
  have hFits : elf.eEntry.toNat + 4 * (ws ++ [h]).length ≤ mem.bytes.length := by
    rw [List.length_append, hLength]
    exact hImage.fits
  have hWord := Memory.word?_of_bytes hFits hBytes
  refine ⟨mem, program, imm16, hLoad, hDecode, hCount, ?_, ?_⟩
  · apply Memory.holds_of_words hDecode hHlt
    intro k hk
    rw [hWord k (by rw [List.length_append]; omega), List.getElem_append_left hk]
  · have hLast := hWord ws.length (by simp)
    rw [List.getElem_concat_length rfl] at hLast
    simp only [Memory.site, hCount, hLast, hFinal]

end ProgramImage

/-- End to end: a program image is loaded at its entry point and runs to its
HLT, with the effect of the decoded words in order. A program that ends otherwise is
left to `run_reports`. -/
theorem load_and_run {ParseError : Type} (parse : Bytes → Except ParseError Elf) (elfBytes : Bytes)
    (elf : Elf) (ws : List UInt32) (h : UInt32) (size : UInt64)
    (hImage : ProgramImage parse elfBytes elf ws h size) :
    ∃ mem cpu program regs,
      loadElf parse (Memory.new size) elfBytes = .ok (.ok elf.eEntry, mem) ∧
      ((Cpu.new mem).writePc elf.eEntry).run = .ok (.ok (), cpu) ∧
      cpu.isHalted = true ∧ cpu.readPc.toNat = elf.eEntry.toNat + 4 * ws.length ∧
      ws.map decode = program.map .ok ∧
      executeList Registers.new mem false program = .ok (.ok (), regs, mem, false) ∧
      cpu.regs = regs.writePc cpu.readPc := by
  obtain ⟨mem, program, imm16, hLoad, hDecode, hCount, hHolds, hSite⟩ := hImage.holds
  have hEnd : ((Cpu.new mem).writePc elf.eEntry).mem.site
      (((Cpu.new mem).writePc elf.eEntry).regs.pc.toNat + 4 * program.length) =
        .instruction (.hlt imm16) := hSite
  have hRun := Cpu.run_program program ((Cpu.new mem).writePc elf.eEntry) rfl hHolds
    (by rw [hEnd]; rfl)
  have hPc : (((Cpu.new mem).writePc elf.eEntry).finish program).regs.pc.toNat =
      elf.eEntry.toNat + 4 * program.length := Cpu.finish_pc hHolds
  rw [hEnd] at hRun
  refine ⟨mem, _, program, program.foldl effect Registers.new, hLoad, hRun, ?_, ?_, hDecode,
    executeList_eq mem _ hHolds.fields Registers.new, ?_⟩
  · rw [Cpu.isHalted, Cpu.finish, hEnd]
    rfl
  · rw [← hCount]
    exact hPc
  · rw [Cpu.finish, Cpu.writePc, foldl_effect_writePc]
    rfl

/-- MOVZ X0, #0x42; ADD X1, X0, #1; HLT, at address 8. -/
def addElf : Bytes :=
  ⟨buildElf 8 (wordBytes ([0xD2800840, 0x91000401] ++ [0xD4030000])), by decide +kernel⟩

def addHeaders : Elf := ⟨2, 0xB7, 8, [⟨1, 120, 8, 12, 12⟩]⟩

theorem addElf_image :
    ProgramImage storedHeaders addElf addHeaders [0xD2800840, 0x91000401] 0xD4030000 32 where
  identified := by unfold PassesIdentification; decide +kernel
  parsed := by decide +kernel
  machine := rfl
  words := by
    intro word hWord
    simp only [List.mem_cons, List.not_mem_nil, or_false] at hWord
    rcases hWord with rfl | rfl
    · exact ⟨.movWideImmediate true 2 0 0x42 0, by decide +kernel, rfl⟩
    · exact ⟨.addSubImmediate true false false 1 0 1 false, by decide +kernel, rfl⟩
  final := ⟨0, by decide +kernel⟩
  fits := by decide +kernel
  segment := by
    refine ⟨[], ⟨1, 120, 8, 12, 12⟩, [], rfl, rfl, rfl, by decide +kernel, rfl, by decide +kernel,
      by decide +kernel, ?_⟩
    intro other hOther
    cases hOther

theorem load_and_run_addElf : ∃ mem cpu program regs,
    loadElf storedHeaders (Memory.new 32) addElf = .ok (.ok addHeaders.eEntry, mem) ∧
    ((Cpu.new mem).writePc addHeaders.eEntry).run = .ok (.ok (), cpu) ∧
    cpu.isHalted = true ∧ cpu.readPc.toNat = addHeaders.eEntry.toNat + 4 * 2 ∧
    [0xD2800840, 0x91000401].map decode = program.map .ok ∧
    executeList Registers.new mem false program = .ok (.ok (), regs, mem, false) ∧
    cpu.regs = regs.writePc cpu.readPc :=
  load_and_run storedHeaders addElf addHeaders _ _ 32 addElf_image

end Simulator
