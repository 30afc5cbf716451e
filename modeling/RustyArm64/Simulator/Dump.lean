import Mathlib.Data.List.GetD
import RustyArm64.Base.FixedFormat
import RustyArm64.Simulator.Cpu
import RustyArm64.Simulator.Loader

/-! The texts that the simulator prints: the register dump and the error messages.
A dump is read back to the registers it was printed from. -/
namespace Simulator

open FixedFormat

def decimal : Alphabet Char :=
  ⟨['0', '1', '2', '3', '4', '5', '6', '7', '8', '9'], by decide, by decide⟩

def upperHex : Alphabet Char :=
  ⟨['0', '1', '2', '3', '4', '5', '6', '7', '8', '9', 'A', 'B', 'C', 'D', 'E', 'F'],
    by decide, by decide⟩

/-- A placeholder such as `{:016X}`, of a minimum width. -/
def padded (α : Alphabet Char) (width n : Nat) : String := String.ofList (α.numeral width n)

/-- `bool as u8`. -/
def flagBit (flag : Bool) : Nat := if flag then 1 else 0

namespace Registers

/-- `self.x[idx]`. -/
def element (regs : Registers) (idx : Nat) : Outcome UInt64 :=
  if h : idx < 31 then .ok regs.x[idx] else .error .indexRange

/-- One row of the general-purpose registers. The last row only has three. -/
def dumpRow (regs : Registers) (row : Nat) : Outcome String := do
  let base := row * 4
  let count := if row = 7 then 3 else 4
  let parts ← (List.range count).mapM fun col => do
    let idx := base + col
    return "X" ++ padded decimal 2 idx ++ "=0x" ++ padded upperHex 16 (← regs.element idx).toNat
  return "  ".intercalate parts

/-- The dump of the entire register file, one line a row. -/
def dump (regs : Registers) : Outcome String := do
  let rows ← (List.range 8).mapM regs.dumpRow
  return "\n".intercalate (rows ++ [
    "SP =0x" ++ padded upperHex 16 regs.sp.toNat,
    "PC =0x" ++ padded upperHex 16 regs.pc.toNat,
    "N=" ++ padded decimal 1 (flagBit regs.n) ++ " Z=" ++ padded decimal 1 (flagBit regs.z) ++
      " C=" ++ padded decimal 1 (flagBit regs.c) ++ " V=" ++ padded decimal 1 (flagBit regs.v)])

end Registers

/-- A traversal in which no item panics is a map. -/
theorem Outcome.mapM_ok {α β : Type} {f : α → Outcome β} {g : α → β} {xs : List α}
    (h : ∀ x ∈ xs, f x = .ok (g x)) : xs.mapM f = .ok (xs.map g) := by
  induction xs with
  | nil => rfl
  | cons x rest ih =>
      rw [List.mapM_cons, h x (List.mem_cons_self ..), Outcome.ok_bind,
        ih fun y hy => h y (List.mem_cons_of_mem _ hy), Outcome.ok_bind]
      rfl

/-- The digits of a flag. -/
def flagDigits : Alphabet Char := ⟨['0', '1'], by decide, by decide⟩

def cellFields (idx : Nat) : List (Item Char) :=
  [.label ("X".toList ++ decimal.numeral 2 idx ++ "=0x".toList), .number upperHex 16]

/-- The indices of the registers in a row. -/
def rowIndices (row : Nat) : List Nat :=
  (List.range (if row = 7 then 3 else 4)).map (row * 4 + ·)

/-- The rows of the dump have four registers each, the last one three: the bound in `dump`
keeps X31 out. -/
theorem rowIndices_lt {row idx : Nat} (hRow : row < 8) (h : idx ∈ rowIndices row) : idx < 31 := by
  obtain ⟨col, hCol, rfl⟩ := List.mem_map.mp h
  rw [List.mem_range] at hCol
  split at hCol <;> omega

theorem flatMap_rowIndices : (List.range 8).flatMap rowIndices = List.range 31 := by decide

def rowFields (row : Nat) : List (Item Char) :=
  [.label "  ".toList].intercalate ((rowIndices row).map cellFields)

def flagFields : List (Item Char) :=
  [.label "N=".toList, .number flagDigits 1, .label " Z=".toList, .number flagDigits 1,
    .label " C=".toList, .number flagDigits 1, .label " V=".toList, .number flagDigits 1]

def dumpFields : List (Item Char) :=
  [.label "\n".toList].intercalate ((List.range 8).map rowFields ++
    [[.label "SP =0x".toList, .number upperHex 16], [.label "PC =0x".toList, .number upperHex 16],
      flagFields])

namespace Registers

/-- Element `idx` as a number, 0 past the end. -/
def elementValue (regs : Registers) (idx : Nat) : Nat :=
  if h : idx < 31 then regs.x[idx].toNat else 0

/-- The numbers that a dump shows, in the order of the print. -/
def shown (regs : Registers) : List Nat :=
  (List.range 31).map regs.elementValue ++ [regs.sp.toNat, regs.pc.toNat, flagBit regs.n,
    flagBit regs.z, flagBit regs.c, flagBit regs.v]

/-- The parts of a dump with the numbers they show. -/
def dumpParts (regs : Registers) : List (List (Item Char) × List Nat) :=
  ((List.range 8).map fun row => (rowFields row, (rowIndices row).map regs.elementValue)) ++
    [([.label "SP =0x".toList, .number upperHex 16], [regs.sp.toNat]),
      ([.label "PC =0x".toList, .number upperHex 16], [regs.pc.toNat]),
      (flagFields, [flagBit regs.n, flagBit regs.z, flagBit regs.c, flagBit regs.v])]

/-- The texts between the numbers, in the order in which they are printed. -/
theorem dumpParts_fst (regs : Registers) :
    [.label "\n".toList].intercalate (regs.dumpParts.map Prod.fst) = dumpFields := by
  rw [dumpParts, List.map_append, List.map_map]
  rfl

/-- The numbers between the texts: X0 to X30, SP, PC and the four flags. -/
theorem dumpParts_snd (regs : Registers) : regs.dumpParts.flatMap Prod.snd = regs.shown := by
  have hRows : ((List.range 8).map fun row =>
      (rowFields row, (rowIndices row).map regs.elementValue)).flatMap Prod.snd =
        (List.range 31).map regs.elementValue := by
    rw [List.flatMap_map, ← flatMap_rowIndices, List.map_flatMap]
  rw [dumpParts, List.flatMap_append, hRows]
  rfl

theorem elementValue_lt (regs : Registers) (idx : Nat) : regs.elementValue idx < 2 ^ 64 := by
  unfold elementValue
  split
  · exact UInt64.toNat_lt _
  · decide

theorem fits_word (label : List Char) {n : Nat} (h : n < 2 ^ 64) :
    Fits [.label label, .number upperHex 16] [n] := ⟨h, rfl⟩

/-- The cells of a row, with the numbers they show. -/
def rowParts (regs : Registers) (row : Nat) : List (List (Item Char) × List Nat) :=
  (rowIndices row).map fun idx => (cellFields idx, [regs.elementValue idx])

theorem fits_rowParts (regs : Registers) (row : Nat) :
    ∀ part ∈ regs.rowParts row, Fits part.1 part.2 := by
  intro part hPart
  obtain ⟨idx, -, rfl⟩ := List.mem_map.mp hPart
  exact fits_word _ (regs.elementValue_lt idx)

theorem rowParts_snd (regs : Registers) (row : Nat) :
    (regs.rowParts row).flatMap Prod.snd = (rowIndices row).map regs.elementValue := by
  rw [rowParts, List.flatMap_map, List.map_eq_flatMap]

theorem rowParts_fst (regs : Registers) (row : Nat) :
    [.label "  ".toList].intercalate ((regs.rowParts row).map Prod.fst) = rowFields row := by
  rw [rowParts, List.map_map]
  rfl

theorem fits_row (regs : Registers) (row : Nat) :
    Fits (rowFields row) ((rowIndices row).map regs.elementValue) := by
  rw [← regs.rowParts_fst row, ← regs.rowParts_snd row]
  exact Fits.intercalate _ (regs.fits_rowParts row)

theorem flagBit_lt (flag : Bool) : flagBit flag < flagDigits.base ^ 1 := by
  cases flag <;> decide

/-- Every register and flag fits the field it is printed in, so the layout is fixed. -/
theorem fits_dumpParts (regs : Registers) : ∀ part ∈ regs.dumpParts, Fits part.1 part.2 := by
  intro part hPart
  rcases List.mem_append.mp hPart with hRow | hLast
  · obtain ⟨row, -, rfl⟩ := List.mem_map.mp hRow
    exact regs.fits_row row
  · simp only [List.mem_cons, List.not_mem_nil, or_false] at hLast
    rcases hLast with rfl | rfl | rfl
    · exact fits_word _ regs.sp.toNat_lt
    · exact fits_word _ regs.pc.toNat_lt
    · exact ⟨flagBit_lt _, flagBit_lt _, flagBit_lt _, flagBit_lt _, rfl⟩

/-- Every number has as many digits as the dump gives it. -/
theorem fits_shown (regs : Registers) : Fits dumpFields regs.shown := by
  rw [← regs.dumpParts_fst, ← regs.dumpParts_snd]
  exact Fits.intercalate _ regs.fits_dumpParts

/-- The text of one register. -/
theorem render_cell (idx n : Nat) :
    render (cellFields idx) [n] =
      ("X" ++ padded decimal 2 idx ++ "=0x" ++ padded upperHex 16 n).toList := by
  simp only [cellFields, render, padded, String.toList_append, String.toList_ofList,
    List.append_nil]

/-- No row of the dump indexes past the registers. -/
theorem element_eq (regs : Registers) {idx : Nat} (h : idx < 31) :
    ∃ word, regs.element idx = .ok word ∧ word.toNat = regs.elementValue idx := by
  refine ⟨regs.x[idx], dif_pos h, ?_⟩
  rw [elementValue, dif_pos h]

/-- A row is printed without a panic, as all its registers exist. -/
theorem dumpRow_eq (regs : Registers) {row : Nat} (hRow : row < 8) :
    regs.dumpRow row =
      .ok (String.ofList (render (rowFields row) ((rowIndices row).map regs.elementValue))) := by
  have hParts : (List.range (if row = 7 then 3 else 4)).mapM (fun col => do
      return "X" ++ padded decimal 2 (row * 4 + col) ++ "=0x" ++
        padded upperHex 16 (← regs.element (row * 4 + col)).toNat) =
      (.ok ((List.range (if row = 7 then 3 else 4)).map fun col =>
        "X" ++ padded decimal 2 (row * 4 + col) ++ "=0x" ++
          padded upperHex 16 (regs.elementValue (row * 4 + col))) : Outcome (List String)) := by
    apply Outcome.mapM_ok
    intro col hCol
    obtain ⟨word, hWord, hValue⟩ := regs.element_eq (rowIndices_lt hRow (List.mem_map_of_mem hCol))
    rw [hWord, Outcome.ok_bind, hValue]
    rfl
  rw [dumpRow]
  dsimp only
  rw [hParts, Outcome.ok_bind, Outcome.pure_eq]
  refine congrArg Except.ok (String.toList_inj.mp ?_)
  conv_rhs => rw [String.toList_ofList]
  rw [String.toList_intercalate, ← regs.rowParts_fst row, ← regs.rowParts_snd row,
    render_intercalate _ (regs.fits_rowParts row), rowParts, rowIndices, List.map_map, List.map_map,
    List.map_map]
  refine congrArg (List.intercalate _) (List.map_congr_left ?_)
  intro col _
  exact (render_cell _ _).symm

/-- The decimal flag digit is that of the alphabet with two symbols. -/
theorem padded_flagBit (flag : Bool) :
    (padded decimal 1 (flagBit flag)).toList = flagDigits.numeral 1 (flagBit flag) := by
  cases flag <;> decide

/-- A dump never panics, and its text is that of the fields. -/
theorem dump_eq (regs : Registers) :
    regs.dump = .ok (String.ofList (render dumpFields regs.shown)) := by
  have hRows : (List.range 8).mapM regs.dumpRow = .ok ((List.range 8).map fun row =>
      String.ofList (render (rowFields row) ((rowIndices row).map regs.elementValue))) :=
    Outcome.mapM_ok fun row hRow => regs.dumpRow_eq (List.mem_range.mp hRow)
  rw [dump, hRows, Outcome.ok_bind, Outcome.pure_eq]
  refine congrArg Except.ok (String.toList_inj.mp ?_)
  conv_rhs => rw [String.toList_ofList]
  rw [String.toList_intercalate, ← regs.dumpParts_fst, ← regs.dumpParts_snd,
    render_intercalate _ regs.fits_dumpParts]
  refine congrArg (List.intercalate _) ?_
  rw [dumpParts, List.map_append, List.map_append, List.map_map, List.map_map]
  refine congrArg₂ (· ++ ·) (List.map_congr_left ?_) ?_
  · intro row _
    exact String.toList_ofList
  · simp only [List.map_cons, List.map_nil, render, flagFields, String.toList_append,
      padded_flagBit, List.append_nil, List.append_assoc]
    simp only [padded, String.toList_ofList]

/-- The registers that show given numbers. -/
def ofShown (values : List Nat) : Registers where
  x := Vector.ofFn fun i => UInt64.ofNat (values.getD i 0)
  sp := UInt64.ofNat (values.getD 31 0)
  pc := UInt64.ofNat (values.getD 32 0)
  n := values.getD 33 0 == 1
  z := values.getD 34 0 == 1
  c := values.getD 35 0 == 1
  v := values.getD 36 0 == 1

/-- Read a dump. -/
def readDump (text : String) : Option Registers := (scan dumpFields text.toList).map ofShown

theorem bounds_dumpFields :
    bounds dumpFields = List.replicate 33 (2 ^ 64) ++ List.replicate 4 2 := by decide +kernel

section Shown

variable {values : List Nat}

/-- What the reader accepts has as many numbers as a dump. -/
theorem length_of_fits (h : Fits dumpFields values) : values.length = 37 := by
  rw [fits_iff_forall₂, bounds_dumpFields] at h
  simpa using h.length_eq

/-- Registers are 64-bit words, and a flag is one bit. -/
theorem lt_of_fits (h : Fits dumpFields values) {i : Nat} (hi : i < 37) :
    values.getD i 0 < if i < 33 then 2 ^ 64 else 2 := by
  have hLength := length_of_fits h
  rw [fits_iff_forall₂, bounds_dumpFields] at h
  have hBound := h.get (i := i) (by omega) (by simpa using hi)
  rw [List.get_eq_getElem, List.get_eq_getElem, List.getElem_append] at hBound
  rw [List.getD_eq_getElem _ _ (by omega)]
  simp only [List.getElem_replicate, List.length_replicate] at hBound
  exact hBound

theorem flagBit_beq_one {n : Nat} (h : n < 2) : flagBit (n == 1) = n := by
  have hCases : n = 0 ∨ n = 1 := by omega
  rcases hCases with rfl | rfl
  · rfl
  · rfl

theorem shown_length (regs : Registers) : regs.shown.length = 37 := by simp [shown]

/-- Numbers that fit are the ones that their registers show. -/
theorem shown_ofShown (h : Fits dumpFields values) : (ofShown values).shown = values := by
  have hLength := length_of_fits h
  apply List.ext_getElem (by rw [shown_length, hLength])
  intro i hi hValue
  have hLt := lt_of_fits h (i := i) (by omega)
  have hGet : values.getD i 0 = values[i] := List.getD_eq_getElem _ _ hValue
  by_cases hElement : i < 31
  · simp only [shown, List.getElem_append_left (show i < ((List.range 31).map
      (ofShown values).elementValue).length by simpa using hElement), List.getElem_map,
      List.getElem_range, elementValue, dif_pos hElement]
    rw [if_pos (by omega)] at hLt
    simp only [ofShown, Vector.getElem_ofFn]
    rw [UInt64.toNat_ofNat_of_lt' hLt, hGet]
  · rw [← hGet]
    have hCases : i = 31 ∨ i = 32 ∨ i = 33 ∨ i = 34 ∨ i = 35 ∨ i = 36 := by omega
    rcases hCases with rfl | rfl | rfl | rfl | rfl | rfl
    · exact UInt64.toNat_ofNat_of_lt' hLt
    · exact UInt64.toNat_ofNat_of_lt' hLt
    · exact flagBit_beq_one hLt
    · exact flagBit_beq_one hLt
    · exact flagBit_beq_one hLt
    · exact flagBit_beq_one hLt

end Shown

theorem flagBit_beq (flag : Bool) : (flagBit flag == 1) = flag := by cases flag <;> rfl

/-- Registers are determined by what they show. -/
theorem ofShown_shown (regs : Registers) : ofShown regs.shown = regs := by
  have hElement : Vector.ofFn (fun i : Fin 31 => UInt64.ofNat (regs.shown.getD i 0)) = regs.x := by
    ext i hi
    have hShown : regs.shown.getD i 0 = regs.elementValue i := by
      rw [List.getD_eq_getElem _ _ (by rw [shown_length]; omega)]
      simp [shown, List.getElem_append_left, hi]
    simp only [Vector.getElem_ofFn, hShown, elementValue, dif_pos hi, UInt64.ofNat_toNat]
  have hRest (i : Nat) : regs.shown.getD (31 + i) 0 = [regs.sp.toNat, regs.pc.toNat,
      flagBit regs.n, flagBit regs.z, flagBit regs.c, flagBit regs.v].getD i 0 := by
    rw [shown, List.getD_append_right _ _ _ _ (by simp)]
    simp
  cases regs with
  | mk x sp pc n z c v =>
      rw [ofShown]
      congr 1
      · exact (congrArg UInt64.ofNat (hRest 0)).trans (UInt64.ofNat_toNat (x := sp))
      · exact (congrArg UInt64.ofNat (hRest 1)).trans (UInt64.ofNat_toNat (x := pc))
      · exact (congrArg (· == 1) (hRest 2)).trans (flagBit_beq n)
      · exact (congrArg (· == 1) (hRest 3)).trans (flagBit_beq z)
      · exact (congrArg (· == 1) (hRest 4)).trans (flagBit_beq c)
      · exact (congrArg (· == 1) (hRest 5)).trans (flagBit_beq v)

/-- A dump never panics. Its text is read back to the same registers, and no other
text is accepted: the print of the whole register file loses nothing. -/
theorem readDump_iff (text : String) (regs : Registers) :
    readDump text = some regs ↔ regs.dump = .ok text := by
  rw [readDump, Option.map_eq_some_iff, dump_eq]
  constructor
  · rintro ⟨values, hScan, rfl⟩
    obtain ⟨hFits, hText⟩ := scan_eq_some_iff.mp hScan
    rw [shown_ofShown hFits, ← hText, String.ofList_toList]
  · intro hText
    have hList : render dumpFields regs.shown = text.toList := by
      rw [← Except.ok.inj hText, String.toList_ofList]
    exact ⟨regs.shown, scan_eq_some_iff.mpr ⟨regs.fits_shown, hList.symm⟩, regs.ofShown_shown⟩

end Registers

end Simulator
