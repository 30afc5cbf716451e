import Mathlib.Data.List.Pairwise
import RustyArm64.Base.BitFields
import RustyArm64.Simulator.PartialLoad

/-! The order of the program headers. It decides which of two segments has the
last word at a shared address, and nothing else on success. -/
namespace Simulator

open ProgramHeader (apply)

namespace ProgramHeader

/-- No address is written by both headers. -/
def DisjointFrom (phdr other : ProgramHeader) : Prop :=
  ∀ a, phdr.covers a = true → other.covers a = false

instance : Std.Symm DisjointFrom where
  symm phdr other h a hCovers := by
    cases hBoth : phdr.covers a with
    | false => rfl
    | true =>
        rw [h a hBoth] at hCovers
        cases hCovers

/-- Among disjoint headers, at most one covers a given byte. -/
theorem eq_of_covers {phdrs : List ProgramHeader} (hDisjoint : phdrs.Pairwise DisjointFrom)
    {phdr other : ProgramHeader} (hMem : phdr ∈ phdrs) (hOther : other ∈ phdrs) {a : Nat}
    (hCovers : phdr.covers a = true) (hCovers' : other.covers a = true) : phdr = other := by
  by_contra hNe
  have hFree := hDisjoint.forall hMem hOther hNe a hCovers
  rw [hCovers'] at hFree
  cases hFree

/-- Disjoint headers leave the same memory in every order: an address holds the
byte of the one header that covers it. -/
theorem foldl_apply_perm {phdrs phdrs' : List ProgramHeader} (hPerm : phdrs.Perm phdrs')
    (hDisjoint : phdrs.Pairwise DisjointFrom) {file : List UInt8} {m : Memory}
    (hBounds : ∀ phdr ∈ phdrs, phdr.isLoad = true → phdr.InBounds file.length m.bytes.length) :
    phdrs.foldl (apply file) m = phdrs'.foldl (apply file) m := by
  have hBounds' : ∀ phdr ∈ phdrs', phdr.isLoad = true →
      phdr.InBounds file.length m.bytes.length :=
    fun phdr hMem => hBounds phdr (hPerm.mem_iff.mpr hMem)
  have hReverse : phdrs.reverse.Perm phdrs'.reverse :=
    phdrs.reverse_perm.trans (hPerm.trans phdrs'.reverse_perm.symm)
  refine Memory.ext (List.ext_getElem? fun a => ?_)
  have hFind : phdrs.reverse.find? (·.covers a) = phdrs'.reverse.find? (·.covers a) :=
    hReverse.find?_eq fun phdr hMem other hOther =>
      eq_of_covers hDisjoint (List.mem_reverse.mp hMem) (List.mem_reverse.mp hOther)
  rw [getElem?_foldl_apply hBounds, getElem?_foldl_apply hBounds', hFind]

end ProgramHeader

section Load

variable {ParseError : Type}

/-- Two orders of the same headers give the same result, and the same memory if
the load succeeds and no two loadable segments overlap. Where two overlap the later one
stays, and the order is seen. -/
theorem segment_order_irrelevant (parse parse' : Bytes → Except ParseError Elf) (memory : Memory)
    (elfBytes : Bytes) (elf : Elf) (phdrs phdrs' : List ProgramHeader)
    (hParse : parse elfBytes = .ok { elf with programHeaders := phdrs })
    (hParse' : parse' elfBytes = .ok { elf with programHeaders := phdrs' })
    (hPerm : phdrs.Perm phdrs') :
    ∃ result final final', loadElf parse memory elfBytes = .ok (result, final) ∧
      loadElf parse' memory elfBytes = .ok (result, final') ∧
      (phdrs.Pairwise ProgramHeader.DisjointFrom → ∀ entry, result = .ok entry →
        final = final') := by
  rcases checkIdentification_cases elfBytes with hIdent | ⟨e, -, hCheck⟩
  · by_cases hMachine : elf.eMachine = emAarch64
    · rcases ProgramHeader.inBounds_or_bad phdrs elfBytes.toList.length
        memory.bytes.length with hBounds | hBad
      · have hBounds' : ∀ phdr ∈ phdrs', phdr.isLoad = true →
            phdr.InBounds elfBytes.toList.length memory.bytes.length :=
          fun phdr hMem => hBounds phdr (hPerm.mem_iff.mpr hMem)
        have hAny : (phdrs.any fun phdr => phdr.isLoad && phdr.nonempty) =
            phdrs'.any fun phdr => phdr.isLoad && phdr.nonempty := hPerm.any_eq
        refine ⟨_, _, _, loadElf_in_bounds hIdent hParse hMachine hBounds, ?_,
          fun hDisjoint _ _ => ProgramHeader.foldl_apply_perm hPerm hDisjoint hBounds⟩
        rw [loadElf_in_bounds hIdent hParse' hMachine hBounds', hAny]
      · have hBad' := hBad
        simp only [hPerm.mem_iff] at hBad'
        obtain ⟨final, -, -, -, hLoad, -⟩ := loadElf_out_of_bounds hIdent hParse hMachine hBad
        obtain ⟨final', -, -, -, hLoad', -⟩ := loadElf_out_of_bounds hIdent hParse' hMachine hBad'
        exact ⟨_, final, final', hLoad, hLoad', fun _ _ hOk => nomatch hOk⟩
    · exact ⟨_, _, _, loadElf_of_other_machine parse memory elfBytes hIdent hParse hMachine,
        loadElf_of_other_machine parse' memory elfBytes hIdent hParse' hMachine, fun _ _ _ => rfl⟩
  · exact ⟨_, _, _, loadElf_of_check_error parse memory elfBytes hCheck,
      loadElf_of_check_error parse' memory elfBytes hCheck, fun _ _ _ => rfl⟩

end Load

/-- Two loadable segments. The first one happens to load the header of the second. -/
def twoSegmentElf : Bytes :=
  let le := LittleEndian.encode
  let header := le 4 1 ++ le 4 7 ++ le 8 120 ++ le 8 100 ++ le 8 100 ++ le 8 4 ++ le 8 8 ++ le 8 8
  Bytes.set ⟨buildElf 8 header, by decide +kernel⟩ 56 2

def twoHeaders : List ProgramHeader := [⟨1, 120, 8, 56, 56⟩, ⟨1, 120, 100, 4, 8⟩]

/-- The parser with the header table read backwards. -/
def reversedHeaders (elfBytes : Bytes) : Except Unit Elf :=
  (storedHeaders elfBytes).map fun elf => { elf with programHeaders := elf.programHeaders.reverse }

theorem twoHeaders_disjoint : twoHeaders.Pairwise ProgramHeader.DisjointFrom := by
  refine List.pairwise_pair.mpr fun a hCovers => ?_
  simp only [ProgramHeader.covers, Bool.and_eq_true, decide_eq_true_eq] at hCovers
  simp only [ProgramHeader.covers, Bool.and_eq_false_iff, decide_eq_false_iff_not]
  have hEnd : a < 64 := hCovers.2
  refine Or.inl (Or.inr (Nat.not_le_of_lt ?_))
  exact lt_trans hEnd (by decide)

theorem segment_order_irrelevant_twoSegmentElf : ∃ result final final',
    loadElf storedHeaders (Memory.new 128) twoSegmentElf = .ok (result, final) ∧
      loadElf reversedHeaders (Memory.new 128) twoSegmentElf = .ok (result, final') ∧
      ∀ entry, result = .ok entry → final = final' := by
  obtain ⟨result, final, final', hLoad, hLoad', hSame⟩ := segment_order_irrelevant storedHeaders
    reversedHeaders (Memory.new 128) twoSegmentElf ⟨2, 0xB7, 8, []⟩ twoHeaders twoHeaders.reverse
    (by decide +kernel) (by decide +kernel) twoHeaders.reverse_perm.symm
  exact ⟨result, final, final', hLoad, hLoad', hSame twoHeaders_disjoint⟩

end Simulator
