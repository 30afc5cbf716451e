import Mathlib.Data.Nat.Digits.Lemmas

/-! Numerals of a fixed width over any alphabet, and texts that mix them with
fixed labels. Such a text is read back field by field, and only such a text is. -/
namespace FixedFormat

universe u
variable {Symbol : Type u}

/-- The digit symbols in the order of their values. -/
structure Alphabet (Symbol : Type u) where
  symbols : List Symbol
  nodup : symbols.Nodup
  two_le : 2 ≤ symbols.length

namespace Alphabet

variable (α : Alphabet Symbol)

def base : Nat := α.symbols.length

theorem one_lt_base : 1 < α.base := α.two_le

/-- The symbol of a digit below the base. -/
def symbol (digit : Nat) : Symbol :=
  α.symbols.get ⟨digit % α.base, Nat.mod_lt _ (Nat.zero_lt_of_lt α.one_lt_base)⟩

/-- The numeral of a number, padded with zeros up to a width. -/
def numeral (width n : Nat) : List Symbol :=
  (Nat.digitsAppend α.base width n).reverse.map α.symbol

theorem symbol_mem (digit : Nat) : α.symbol digit ∈ α.symbols := List.get_mem _ _

/-- A number below the power of the width has a numeral of just that width. -/
theorem numeral_length {width n : Nat} (h : n < α.base ^ width) :
    (α.numeral width n).length = width := by
  rw [numeral, List.length_map, List.length_reverse, Nat.length_digitsAppend α.one_lt_base width h]

variable [DecidableEq Symbol]

/-- The digits of a numeral, the lowest first. -/
def readDigits (text : List Symbol) : List Nat := text.reverse.map (α.symbols.idxOf ·)

/-- The number that a numeral of a width denotes. -/
def value (width : Nat) (text : List Symbol) : Option Nat :=
  if text.length = width ∧ ∀ s ∈ text, s ∈ α.symbols then
    some (Nat.ofDigits α.base (α.readDigits text))
  else none

theorem idxOf_symbol {digit : Nat} (h : digit < α.base) :
    α.symbols.idxOf (α.symbol digit) = digit := by
  have hMod : digit % α.base = digit := Nat.mod_eq_of_lt h
  rw [symbol, List.get_eq_getElem]
  simp only [hMod]
  exact α.nodup.idxOf_getElem digit h

/-- Within the alphabet, symbols and their positions correspond. -/
theorem symbol_idxOf {s : Symbol} (h : s ∈ α.symbols) : α.symbol (α.symbols.idxOf s) = s := by
  have hIndex : α.symbols.idxOf s < α.symbols.length := List.idxOf_lt_length_of_mem h
  have hMod : α.symbols.idxOf s % α.base = α.symbols.idxOf s := Nat.mod_eq_of_lt hIndex
  rw [symbol, List.get_eq_getElem]
  simp only [hMod]
  exact List.getElem_idxOf hIndex

theorem readDigits_numeral (width n : Nat) :
    α.readDigits (α.numeral width n) = Nat.digitsAppend α.base width n := by
  rw [readDigits, numeral, ← List.map_reverse, List.reverse_reverse, List.map_map]
  conv_rhs => rw [← List.map_id (Nat.digitsAppend α.base width n)]
  apply List.map_congr_left
  intro digit hDigit
  exact α.idxOf_symbol (Nat.lt_of_mem_digitsAppend α.one_lt_base width digit hDigit)

/-- A padded numeral reads back as its number. Numbers too large for the width are excluded. -/
theorem value_numeral {width n : Nat} (h : n < α.base ^ width) :
    α.value width (α.numeral width n) = some n := by
  have hMem : ∀ s ∈ α.numeral width n, s ∈ α.symbols := by
    intro s hs
    obtain ⟨digit, -, rfl⟩ := List.mem_map.mp hs
    exact α.symbol_mem digit
  rw [value, if_pos ⟨α.numeral_length h, hMem⟩, readDigits_numeral,
    (Nat.setInvOn_digitsAppend_ofDigits α.one_lt_base width).2 h]

/-- A number has one numeral of a width only. -/
theorem numeral_of_value {width n : Nat} {text : List Symbol} (h : α.value width text = some n) :
    n < α.base ^ width ∧ text = α.numeral width n := by
  unfold value at h
  split at h
  · rename_i hText
    obtain ⟨hLength, hMem⟩ := hText
    cases h
    have hDigits : ∀ digit ∈ α.readDigits text, digit < α.base := by
      intro digit hDigit
      obtain ⟨s, hs, rfl⟩ := List.mem_map.mp hDigit
      exact List.idxOf_lt_length_of_mem (hMem s (List.mem_reverse.mp hs))
    have hCount : (α.readDigits text).length = width := by
      rw [readDigits, List.length_map, List.length_reverse, hLength]
    refine ⟨hCount ▸ Nat.ofDigits_lt_base_pow_length α.one_lt_base hDigits, ?_⟩
    rw [numeral, (Nat.setInvOn_digitsAppend_ofDigits α.one_lt_base width).1 ⟨hCount, hDigits⟩,
      readDigits, ← List.map_reverse, List.reverse_reverse, List.map_map]
    conv_lhs => rw [← List.map_id text]
    apply List.map_congr_left
    intro s hs
    exact (α.symbol_idxOf (hMem s hs)).symm
  · cases h

end Alphabet

/-- A part of a text: fixed symbols, or a numeral of a fixed width. -/
inductive Item (Symbol : Type u) where
  | label (text : List Symbol)
  | number (alphabet : Alphabet Symbol) (width : Nat)

/-- The values belong to the numeral fields in their order and fit the widths. -/
def Fits : List (Item Symbol) → List Nat → Prop
  | [], values => values = []
  | .label _ :: rest, values => Fits rest values
  | .number _ _ :: _, [] => False
  | .number α width :: rest, n :: values => n < α.base ^ width ∧ Fits rest values

/-- The text of the fields with the values put in. -/
def render : List (Item Symbol) → List Nat → List Symbol
  | .label text :: rest, values => text ++ render rest values
  | .number α width :: rest, n :: values => α.numeral width n ++ render rest values
  | _, _ => []

/-- Fitting values may be put together part by part. -/
theorem Fits.append {fields others : List (Item Symbol)} {values more : List Nat}
    (h : Fits fields values) (hMore : Fits others more) :
    Fits (fields ++ others) (values ++ more) := by
  induction fields generalizing values with
  | nil =>
      rw [Fits] at h
      rw [h]
      exact hMore
  | cons field rest ih =>
      cases field with
      | label text => exact ih h
      | number α width =>
          cases values with
          | nil => exact h.elim
          | cons n values => exact ⟨h.1, ih h.2⟩

/-- A rendering of two groups of fields is the two renderings in a row. -/
theorem render_append {fields : List (Item Symbol)} {values : List Nat} (h : Fits fields values)
    (others : List (Item Symbol)) (more : List Nat) :
    render (fields ++ others) (values ++ more) = render fields values ++ render others more := by
  induction fields generalizing values with
  | nil =>
      rw [Fits] at h
      rw [h]
      rfl
  | cons field rest ih =>
      cases field with
      | label text => rw [List.cons_append, render, ih h, render, List.append_assoc]
      | number α width =>
          cases values with
          | nil => exact h.elim
          | cons n values =>
              rw [List.cons_append, List.cons_append, render, ih h.2, render, List.append_assoc]

/-- Fields with a label between them hold the values of all. -/
theorem Fits.intercalate (label : List Symbol) {parts : List (List (Item Symbol) × List Nat)}
    (h : ∀ part ∈ parts, Fits part.1 part.2) :
    Fits ([.label label].intercalate (parts.map Prod.fst)) (parts.flatMap Prod.snd) := by
  induction parts with
  | nil => rfl
  | cons part rest ih =>
      have hRest := ih fun other hOther => h other (List.mem_cons_of_mem _ hOther)
      cases rest with
      | nil =>
          rw [List.map_singleton, List.intercalate_singleton, List.flatMap_singleton]
          exact h part (List.mem_cons_self ..)
      | cons second others =>
          rw [List.map_cons, List.map_cons, List.intercalate_cons_cons, List.append_assoc,
            List.flatMap_cons]
          exact (h part (List.mem_cons_self ..)).append hRest

/-- The same for many groups with a label between any two. -/
theorem render_intercalate (label : List Symbol) {parts : List (List (Item Symbol) × List Nat)}
    (h : ∀ part ∈ parts, Fits part.1 part.2) :
    render ([.label label].intercalate (parts.map Prod.fst)) (parts.flatMap Prod.snd) =
      label.intercalate (parts.map fun part => render part.1 part.2) := by
  induction parts with
  | nil => rfl
  | cons part rest ih =>
      have hRest := ih fun other hOther => h other (List.mem_cons_of_mem _ hOther)
      cases rest with
      | nil =>
          rw [List.map_singleton, List.intercalate_singleton, List.flatMap_singleton,
            List.map_singleton, List.intercalate_singleton]
      | cons second others =>
          rw [List.map_cons, List.map_cons] at hRest ⊢
          rw [List.map_cons, List.map_cons, List.intercalate_cons_cons, List.intercalate_cons_cons,
            List.flatMap_cons, List.append_assoc, render_append (h part (List.mem_cons_self ..)),
            List.append_assoc]
          congr 1
          rw [List.singleton_append, render, hRest]

/-- The numbers below which the values of the fields lie. -/
def bounds : List (Item Symbol) → List Nat
  | [] => []
  | .label _ :: rest => bounds rest
  | .number α width :: rest => α.base ^ width :: bounds rest

/-- Values fit a format when each is below the bound of its field. -/
theorem fits_iff_forall₂ {fields : List (Item Symbol)} {values : List Nat} :
    Fits fields values ↔ List.Forall₂ (· < ·) values (bounds fields) := by
  induction fields generalizing values with
  | nil => rw [Fits, bounds, List.forall₂_nil_right_iff]
  | cons field rest ih =>
      cases field with
      | label text => exact ih
      | number α width =>
          cases values with
          | nil => exact ⟨fun h => h.elim, fun h => nomatch h⟩
          | cons n values => rw [Fits, bounds, List.forall₂_cons, ih]

section Scan

variable [DecidableEq Symbol]

/-- Read the values of the fields from a text. -/
def scan : List (Item Symbol) → List Symbol → Option (List Nat)
  | [], text => if text = [] then some [] else none
  | .label label :: rest, text =>
    if text.take label.length = label then scan rest (text.drop label.length) else none
  | .number α width :: rest, text =>
    (α.value width (text.take width)).bind fun n => (scan rest (text.drop width)).map (n :: ·)

/-- A text reads as the values of which it is the rendering, and as nothing else. -/
theorem scan_eq_some_iff {fields : List (Item Symbol)} {text : List Symbol} {values : List Nat} :
    scan fields text = some values ↔ Fits fields values ∧ text = render fields values := by
  induction fields generalizing text values with
  | nil =>
      rw [scan, Fits]
      constructor
      · intro h
        split at h
        · rename_i hText
          cases h
          exact ⟨rfl, hText⟩
        · cases h
      · rintro ⟨rfl, rfl⟩
        rfl
  | cons field rest ih =>
      cases field with
      | label label =>
          rw [scan, Fits, render]
          constructor
          · intro h
            split at h
            · rename_i hLabel
              obtain ⟨hFits, hRest⟩ := ih.mp h
              refine ⟨hFits, ?_⟩
              conv_lhs => rw [← List.take_append_drop label.length text, hLabel, hRest]
            · cases h
          · rintro ⟨hFits, rfl⟩
            rw [List.take_left, if_pos rfl, List.drop_left]
            exact ih.mpr ⟨hFits, rfl⟩
      | number α width =>
          rw [scan]
          constructor
          · intro h
            obtain ⟨n, hValue, hRest⟩ := Option.bind_eq_some_iff.mp h
            obtain ⟨others, hScan, rfl⟩ := Option.map_eq_some_iff.mp hRest
            obtain ⟨hFits, hText⟩ := ih.mp hScan
            obtain ⟨hLt, hNumeral⟩ := α.numeral_of_value hValue
            refine ⟨⟨hLt, hFits⟩, ?_⟩
            rw [render, ← hNumeral, ← hText, List.take_append_drop]
          · intro h
            obtain ⟨hFits, rfl⟩ := h
            cases values with
            | nil => exact hFits.elim
            | cons n values =>
                have hLength := α.numeral_length hFits.1
                rw [render, List.take_left' hLength, α.value_numeral hFits.1,
                  List.drop_left' hLength, Option.bind_some, ih.mpr ⟨hFits.2, rfl⟩, Option.map_some]

end Scan

end FixedFormat
