import Mathlib.Data.Nat.Notation
import Mathlib.Tactic.Ring

/-! Little-endian byte lists and the numbers they stand for. -/
namespace LittleEndian

/-- The lowest `width` bytes of a number, least significant byte first. -/
def encode : Nat → Nat → List UInt8
  | 0, _ => []
  | width + 1, n => UInt8.ofNat n :: encode width (n / 256)

/-- Numerical value of a byte list, least significant byte first. -/
def value : List UInt8 → Nat
  | [] => 0
  | byte :: rest => byte.toNat + 256 * value rest

@[simp] theorem encode_length (width n : Nat) : (encode width n).length = width := by
  induction width generalizing n with
  | zero => rfl
  | succ width ih => simp [encode, ih]

/-- Encoding keeps every number that fits the width. -/
theorem value_encode {width n : Nat} (h : n < 256 ^ width) : value (encode width n) = n := by
  induction width generalizing n with
  | zero =>
      simp at h
      subst n
      rfl
  | succ width ih =>
      have hHigh : n / 256 < 256 ^ width := by
        rw [Nat.pow_succ, Nat.mul_comm] at h
        exact Nat.div_lt_of_lt_mul h
      have hByte : (UInt8.ofNat n).toNat = n % 256 := by simp
      rw [encode, value, ih hHigh, hByte]
      exact Nat.mod_add_div n 256

/-- The bytes of a record: numbers of given widths, one after the other. -/
def record (fields : List (Nat × Nat)) : List UInt8 := fields.flatMap fun f => encode f.1 f.2

theorem record_append (fields others : List (Nat × Nat)) :
    record (fields ++ others) = record fields ++ record others := List.flatMap_append

/-- The bytes in front of the field with an index. -/
def offset (fields : List (Nat × Nat)) (k : Nat) : Nat := ((fields.take k).map Prod.fst).sum

/-- The length of a record is a fact about its widths, not about its values. -/
theorem record_length (fields : List (Nat × Nat)) :
    (record fields).length = (fields.map Prod.fst).sum := by
  simp [record, List.length_flatMap]

/-- A field is read back at its offset. -/
theorem value_field {fields : List (Nat × Nat)} {k width n : Nat}
    (hField : fields[k]? = some (width, n)) (h : n < 256 ^ width) (rest : List UInt8) :
    value (((record fields ++ rest).drop (offset fields k)).take width) = n := by
  obtain ⟨hk, hGet⟩ := List.getElem?_eq_some_iff.mp hField
  have hSplit : record fields = record (fields.take k) ++
      (encode width n ++ record (fields.drop (k + 1))) := by
    conv_lhs => rw [← List.take_append_drop k fields, List.drop_eq_getElem_cons hk, hGet]
    rw [record_append, record, record, List.flatMap_cons]
    rfl
  rw [hSplit, List.append_assoc, List.append_assoc, offset, List.drop_left' (record_length _),
    List.take_left' (encode_length _ _), value_encode h]

end LittleEndian
