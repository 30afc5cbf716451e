import Mathlib.Algebra.Group.Nat.Defs
import Mathlib.Algebra.Ring.Int.Defs

/-! Addition with a carry at any width. The carry and overflow flags say that
the result, read unsigned or signed, is not the exact sum. -/
namespace BitVec

variable {w : Nat}

/-- The condition flags of an addition. -/
structure Nzcv where
  n : Bool
  z : Bool
  c : Bool
  v : Bool
  deriving DecidableEq, Repr

def addWithCarry (x y : BitVec w) (carryIn : Bool) : BitVec w × Nzcv :=
  let unsignedSum := x.toNat + y.toNat + carryIn.toNat
  let signedSum : Int := x.toInt + y.toInt + carryIn.toNat
  let result := BitVec.ofNat w unsignedSum
  (result, ⟨result.msb, result == 0, result.toNat != unsignedSum, result.toInt != signedSum⟩)

theorem toNat_not_add_one (y : BitVec w) : (~~~y).toNat + 1 = 2 ^ w - y.toNat := by
  have hLt := y.isLt
  rw [toNat_not]
  omega

theorem toInt_not_add_one (hWidth : 0 < w) (y : BitVec w) : (~~~y).toInt + 1 = -y.toInt := by
  obtain ⟨k, rfl⟩ := Nat.exists_eq_add_of_lt hWidth
  have hLt := y.isLt
  have hNot := toNat_not_add_one y
  have hHalf : 2 ^ (0 + k + 1) = 2 * 2 ^ k := by rw [Nat.zero_add, Nat.pow_succ, Nat.mul_comm]
  rw [toInt_eq_toNat_cond, toInt_eq_toNat_cond]
  split <;> split <;> omega

/-- A value of width `w` differs from the natural number it was cut out of
exactly if that number does not fit. -/
theorem toNat_ofNat_bne (sum : Nat) :
    ((BitVec.ofNat w sum).toNat != sum) = decide (2 ^ w ≤ sum) := by
  rw [toNat_ofNat, Bool.eq_iff_iff, bne_iff_ne, decide_eq_true_iff]
  constructor
  · intro hNe
    exact Nat.le_of_not_lt fun hSum => hNe (Nat.mod_eq_of_lt hSum)
  · intro hSum hEq
    have hMod := Nat.mod_lt sum (Nat.two_pow_pos w)
    omega

theorem toInt_add_bne (x y : BitVec w) :
    ((x + y).toInt != x.toInt + y.toInt) = saddOverflow x y := by
  cases hOverflow : saddOverflow x y with
  | false => rw [toInt_add_of_not_saddOverflow (by simp [hOverflow]), bne_self_eq_false]
  | true =>
      have hLow := le_toInt (x + y)
      have hHigh := toInt_lt (x := x + y)
      rw [saddOverflow, Bool.or_eq_true, decide_eq_true_iff, decide_eq_true_iff] at hOverflow
      rw [bne_iff_ne]
      omega

theorem toInt_sub_bne (x y : BitVec w) :
    ((x - y).toInt != x.toInt - y.toInt) = ssubOverflow x y := by
  cases hOverflow : ssubOverflow x y with
  | false => rw [toInt_sub_of_not_ssubOverflow (by simp [hOverflow]), bne_self_eq_false]
  | true =>
      have hLow := le_toInt (x - y)
      have hHigh := toInt_lt (x := x - y)
      rw [ssubOverflow, Bool.or_eq_true, decide_eq_true_iff, decide_eq_true_iff] at hOverflow
      rw [bne_iff_ne]
      omega

/-- Overflow of a signed sum, stated on the exact sum. Width zero is not excluded. -/
theorem saddOverflow_iff {x y : BitVec w} : saddOverflow x y = true ↔
    ¬(-2 ^ (w - 1) ≤ x.toInt + y.toInt ∧ x.toInt + y.toInt < 2 ^ (w - 1)) := by
  rw [saddOverflow, Bool.or_eq_true, decide_eq_true_iff, decide_eq_true_iff]
  omega

/-- The same for a difference. -/
theorem ssubOverflow_iff {x y : BitVec w} : ssubOverflow x y = true ↔
    ¬(-2 ^ (w - 1) ≤ x.toInt - y.toInt ∧ x.toInt - y.toInt < 2 ^ (w - 1)) := by
  rw [ssubOverflow, Bool.or_eq_true, decide_eq_true_iff, decide_eq_true_iff]
  omega

/-- After a subtraction N and V differ exactly if the left operand is the
smaller one as a signed number. -/
theorem msb_sub_ne_ssubOverflow (x y : BitVec w) :
    (x - y).msb ≠ ssubOverflow x y ↔ x.toInt < y.toInt := by
  have hX : x.msb = decide (x.toInt < 0) := msb_eq_toInt
  have hY : y.msb = decide (y.toInt < 0) := msb_eq_toInt
  by_cases hSigns : x.msb = y.msb
  · -- The signs agree: the difference fits, and N is its sign.
    have hOverflow : ssubOverflow x y = false := by
      rw [ssubOverflow_eq, hSigns]
      cases y.msb <;> cases (x - y).msb <;> rfl
    rw [hOverflow, msb_eq_toInt, toInt_sub_of_not_ssubOverflow (by simp [hOverflow]),
      Bool.ne_false_iff, decide_eq_true_iff]
    omega
  · -- The signs differ: they alone decide the order.
    have hBits : (x - y).msb ≠ ssubOverflow x y ↔ x.msb = true := by
      rw [ssubOverflow_eq]
      revert hSigns
      cases x.msb <;> cases y.msb <;> cases (x - y).msb <;> decide
    rw [hBits, hX, decide_eq_true_iff]
    rw [hX, hY, decide_eq_decide] at hSigns
    omega

theorem addWithCarry_add (x y : BitVec w) : addWithCarry x y false =
    (x + y, ⟨(x + y).msb, x + y == 0, decide (2 ^ w ≤ x.toNat + y.toNat), saddOverflow x y⟩) := by
  have hResult : BitVec.ofNat w (x.toNat + y.toNat) = x + y := by
    apply eq_of_toNat_eq
    rw [toNat_ofNat, toNat_add]
  have hCarry : ((x + y).toNat != x.toNat + y.toNat) = decide (2 ^ w ≤ x.toNat + y.toNat) := by
    rw [← hResult]
    exact toNat_ofNat_bne _
  have hOverflow := toInt_add_bne x y
  simp only [addWithCarry, Bool.toNat_false, Nat.add_zero, Int.natCast_zero, Int.add_zero,
    hResult, hCarry, hOverflow]

/-- Subtraction adds the complement and one: the carry means that nothing was
borrowed. -/
theorem addWithCarry_sub (hWidth : 0 < w) (x y : BitVec w) : addWithCarry x (~~~y) true =
    (x - y, ⟨(x - y).msb, x - y == 0, decide (y.toNat ≤ x.toNat), ssubOverflow x y⟩) := by
  have hNot := toNat_not_add_one y
  have hNotInt := toInt_not_add_one hWidth y
  have hLt := y.isLt
  have hSum : x.toNat + (~~~y).toNat + 1 = 2 ^ w - y.toNat + x.toNat := by omega
  have hSigned : x.toInt + (~~~y).toInt + 1 = x.toInt - y.toInt := by omega
  have hResult : BitVec.ofNat w (2 ^ w - y.toNat + x.toNat) = x - y := by
    apply eq_of_toNat_eq
    rw [toNat_ofNat, toNat_sub]
  have hCarry : ((x - y).toNat != 2 ^ w - y.toNat + x.toNat) = decide (y.toNat ≤ x.toNat) := by
    rw [← hResult, toNat_ofNat_bne, decide_eq_decide]
    omega
  have hOverflow := toInt_sub_bne x y
  simp only [addWithCarry, Bool.toNat_true, hSum, Int.natCast_one, hSigned, hResult, hCarry,
    hOverflow]

/-- The sum, or the difference if `op` is set, at a width, with its flags. -/
def addSubResult (op : Bool) (x y : BitVec w) : BitVec w × Nzcv :=
  if op then addWithCarry x (~~~y) true else addWithCarry x y false

section AddSubResult

variable (op : Bool)

/-- All outputs for a positive width. C means a wrap after an addition, and that
nothing was borrowed after a subtraction. -/
theorem addSubResult_eq (hWidth : 0 < w) (x y : BitVec w) : addSubResult op x y =
    let result := if op then x - y else x + y
    (result, ⟨result.msb, result == 0,
      if op then decide (y.toNat ≤ x.toNat) else decide (2 ^ w ≤ x.toNat + y.toNat),
      if op then ssubOverflow x y else saddOverflow x y⟩) := by
  cases op with
  | false => exact addWithCarry_add x y
  | true => exact addWithCarry_sub hWidth x y

/-- The value is that of the plain operation. -/
theorem addSubResult_value (hWidth : 0 < w) (x y : BitVec w) :
    (addSubResult op x y).1 = if op then x - y else x + y := by
  rw [addSubResult_eq op hWidth]

/-- The carry of a subtraction is set when there is no borrow. -/
theorem addSubResult_carry (hWidth : 0 < w) (x y : BitVec w) : (addSubResult op x y).2.c =
    if op then decide (y.toNat ≤ x.toNat) else decide (2 ^ w ≤ x.toNat + y.toNat) := by
  rw [addSubResult_eq op hWidth]

/-- The overflow flag does not depend on how the carry enters. -/
theorem addSubResult_overflow (hWidth : 0 < w) (x y : BitVec w) :
    (addSubResult op x y).2.v = if op then ssubOverflow x y else saddOverflow x y := by
  rw [addSubResult_eq op hWidth]

theorem addSubResult_negative (x y : BitVec w) :
    (addSubResult op x y).2.n = (addSubResult op x y).1.msb := by
  cases op <;> rfl

theorem addSubResult_zero (x y : BitVec w) :
    (addSubResult op x y).2.z = ((addSubResult op x y).1 == 0) := by
  cases op <;> rfl

/-- Different left operands have different results. -/
theorem addSubResult_injective (hWidth : 0 < w) {x x' y : BitVec w}
    (h : (addSubResult op x y).1 = (addSubResult op x' y).1) : x = x' := by
  rw [addSubResult_value op hWidth, addSubResult_value op hWidth] at h
  cases op with
  | false => exact (BitVec.add_left_inj y).mp h
  | true => exact (BitVec.sub_left_inj y).mp h

/-- Every result has a left operand. -/
theorem addSubResult_surjective (hWidth : 0 < w) (y result : BitVec w) :
    ∃ x, (addSubResult op x y).1 = result := by
  cases op with
  | false =>
      refine ⟨result - y, ?_⟩
      rw [addSubResult_value false hWidth, if_neg Bool.false_ne_true, BitVec.sub_add_cancel]
  | true =>
      refine ⟨result + y, ?_⟩
      rw [addSubResult_value true hWidth, if_pos rfl, BitVec.add_sub_cancel]

end AddSubResult

end BitVec
