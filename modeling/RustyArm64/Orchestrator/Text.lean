import Mathlib.Data.List.TakeWhile

/-! The operations of Python's `str` that the orchestrator uses. -/
namespace Orchestrator

/-- `str.isspace` on one character. -/
def isSpace (c : Char) : Bool :=
  let n := c.toNat
  (9 ≤ n && n ≤ 13) || (28 ≤ n && n ≤ 32) || n == 0x85 || n == 0xA0 || n == 0x1680 ||
    (0x2000 ≤ n && n ≤ 0x200A) || n == 0x2028 || n == 0x2029 || n == 0x202F || n == 0x205F ||
    n == 0x3000

def stripChars (chars : List Char) : List Char :=
  ((chars.dropWhile isSpace).reverse.dropWhile isSpace).reverse

/-- `str.strip`. -/
def strip (text : String) : String := String.ofList (stripChars text.toList)

/-- `str.lower` on one character, as far as the result can be ASCII: the capital
letters, the Kelvin sign and the dotted capital I. -/
def lowerChar (c : Char) : List Char :=
  if 'A' ≤ c ∧ c ≤ 'Z' then [Char.ofNat (c.toNat + 32)]
  else if c.toNat = 0x212A then ['k']
  else if c.toNat = 0x130 then ['i', Char.ofNat 0x307]
  else [c]

/-- `str.lower`. Letters without an ASCII lower case are kept, which no
comparison with an ASCII text can tell. -/
def lower (text : String) : String := String.ofList (text.toList.flatMap lowerChar)

def containsChars (needle : List Char) : List Char → Bool
  | [] => needle.isEmpty
  | c :: rest => needle.isPrefixOf (c :: rest) || containsChars needle rest

theorem stripChars_infix (chars : List Char) : stripChars chars <:+: chars := by
  have hTail : (chars.dropWhile isSpace).reverse.dropWhile isSpace <:+:
      (chars.dropWhile isSpace).reverse := (List.dropWhile_suffix _).isInfix
  have hStrip := List.reverse_infix.mpr hTail
  rw [List.reverse_reverse] at hStrip
  exact hStrip.trans (List.dropWhile_suffix _).isInfix

/-- Blank space on either side makes no difference. -/
theorem stripChars_pad {left right : List Char} (hLeft : ∀ c ∈ left, isSpace c = true)
    (hRight : ∀ c ∈ right, isSpace c = true) (chars : List Char) :
    stripChars (left ++ chars ++ right) = stripChars chars := by
  have hReverse : ∀ c ∈ right.reverse, isSpace c = true := fun c hC =>
    hRight c (List.mem_reverse.mp hC)
  rw [stripChars, stripChars, List.append_assoc, List.dropWhile_append_of_pos hLeft,
    List.dropWhile_append]
  split
  · rename_i hBlank
    rw [List.isEmpty_iff.mp hBlank]
    have hNone : right.dropWhile isSpace = [] := List.dropWhile_eq_nil_iff.mpr hRight
    rw [hNone]
  · rw [List.reverse_append, List.dropWhile_append_of_pos hReverse]

/-- The search for a substring finds what is there. -/
theorem containsChars_iff (needle text : List Char) :
    containsChars needle text = true ↔ needle <:+: text := by
  induction text with
  | nil => rw [containsChars, List.isEmpty_iff, List.infix_nil]
  | cons c rest ih =>
      rw [containsChars, Bool.or_eq_true, List.isPrefixOf_iff_prefix, ih, List.infix_cons_iff]

/-- `needle in text`. -/
def contains (text needle : String) : Bool := containsChars needle.toList text.toList

/-- The pieces between occurrences of three dashes, found from the left. -/
def splitChars : List Char → List Char → List (List Char)
  | piece, '-' :: '-' :: '-' :: rest => piece.reverse :: splitChars [] rest
  | piece, c :: rest => splitChars (c :: piece) rest
  | piece, [] => [piece.reverse]

/-- `str.split("---")`. -/
def splitDashes (text : String) : List String := (splitChars [] text.toList).map String.ofList

abbrev dashes : List Char := ['-', '-', '-']

theorem splitChars_dashes (piece rest : List Char) :
    splitChars piece (dashes ++ rest) = piece.reverse :: splitChars [] rest := rfl

theorem splitChars_cons (piece : List Char) {c : Char} {rest : List Char}
    (hDashes : ¬dashes <+: c :: rest) :
    splitChars piece (c :: rest) = splitChars (c :: piece) rest := by
  rw [splitChars]
  rintro tail rfl rfl
  exact hDashes (List.prefix_append dashes tail)

/-- A text without three dashes is one piece. -/
theorem splitChars_of_not_infix {text : List Char} (hText : ¬dashes <:+: text)
    (piece : List Char) : splitChars piece text = [piece.reverse ++ text] := by
  induction text generalizing piece with
  | nil => simp [splitChars]
  | cons c rest ih =>
      rw [List.infix_cons_iff, not_or] at hText
      rw [splitChars_cons piece hText.1, ih hText.2, List.reverse_cons, List.append_assoc]
      rfl

/-- A line of three dashes behind such a text ends the piece. -/
theorem splitChars_line {text : List Char} (hText : ¬dashes <:+: text)
    (piece rest : List Char) : splitChars piece (text ++ '\n' :: dashes ++ rest) =
      (piece.reverse ++ text ++ ['\n']) :: splitChars [] rest := by
  induction text generalizing piece with
  | nil =>
      rw [List.nil_append, List.cons_append, splitChars_cons piece (by simp), splitChars_dashes]
      simp
  | cons c tail ih =>
      rw [List.infix_cons_iff, not_or] at hText
      have hHead : ¬dashes <+: c :: (tail ++ '\n' :: dashes ++ rest) := by
        intro hPrefix
        -- Three dashes at the head cannot reach past the line break.
        rcases tail with _ | ⟨d, _ | ⟨e, tail⟩⟩
        · simp at hPrefix
        · simp at hPrefix
        · exact hText.1 (by simpa using hPrefix)
      rw [List.cons_append, List.cons_append, splitChars_cons piece hHead, ih hText.2]
      simp

/-- None of the places in the piece so far starts three dashes. -/
def Scanned (piece text : List Char) : Prop :=
  ∀ before after, piece.reverse = before ++ after → after ≠ [] → ¬dashes <+: after ++ text

/-- At the beginning nothing has been passed over. -/
theorem scanned_nil (text : List Char) : Scanned [] text := by
  intro before after hEmpty hAfter
  rw [List.reverse_nil, List.nil_eq, List.append_eq_nil_iff] at hEmpty
  exact (hAfter hEmpty.2).elim

theorem Scanned.cons {piece rest : List Char} {c : Char} (h : Scanned piece (c :: rest))
    (hDashes : ¬dashes <+: c :: rest) : Scanned (c :: piece) rest := by
  intro before after hSplit hAfter
  rcases List.eq_nil_or_concat after with rfl | ⟨init, last, rfl⟩
  · exact (hAfter rfl).elim
  · rw [List.concat_eq_append] at hSplit ⊢
    rw [List.reverse_cons, ← List.append_assoc, List.append_singleton_inj] at hSplit
    obtain ⟨hSplit, rfl⟩ := hSplit
    rw [List.append_assoc, List.singleton_append]
    cases init with
    | nil => exact hDashes
    | cons d init => exact h before (d :: init) hSplit (by simp)

/-- A piece that was scanned has no dashes in it. -/
theorem Scanned.not_infix {piece text : List Char} (h : Scanned piece text) :
    ¬dashes <:+: piece.reverse := by
  rintro ⟨before, after, hSplit⟩
  rw [List.append_assoc] at hSplit
  refine h before (dashes ++ after) hSplit.symm (by simp) ?_
  rw [List.append_assoc]
  exact List.prefix_append _ _

/-- No piece has three dashes in it. -/
theorem not_infix_of_mem_splitChars {piece text part : List Char} (h : Scanned piece text)
    (hPart : part ∈ splitChars piece text) : ¬dashes <:+: part := by
  induction piece, text using splitChars.induct with
  | case1 piece rest ih =>
      rcases List.mem_cons.mp hPart with rfl | hRest
      · exact h.not_infix
      · exact ih (scanned_nil rest) hRest
  | case2 piece c rest hOther ih =>
      have hDashes : ¬dashes <+: c :: rest := by
        rintro ⟨tail, hTail⟩
        cases hTail
        exact hOther tail rfl rfl
      rw [splitChars_cons piece hDashes] at hPart
      exact ih (h.cons hDashes) hPart
  | case3 piece =>
      rw [splitChars, List.mem_singleton] at hPart
      rw [hPart]
      exact h.not_infix

end Orchestrator
