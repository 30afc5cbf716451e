import Mathlib.Algebra.Group.Nat.Defs

/-! Bit vectors as rows of lanes of equal width. A lane is replaced by a mask and
a shifted value, and a vector is determined by its lanes. -/
namespace Lanes

variable {n w : Nat}

/-- Lane `k`, with lane 0 in the lowest bits. -/
def lane (w : Nat) (x : BitVec n) (k : Nat) : BitVec w := x.extractLsb' (w * k) w

/-- Replace lane `k`. -/
def setLane (x : BitVec n) (k : Nat) (value : BitVec w) : BitVec n :=
  (x &&& ~~~((BitVec.allOnes w).setWidth n <<< (w * k))) ||| (value.setWidth n <<< (w * k))

/-- A bit of a lane is a bit of the word; above the lane width it is clear. -/
theorem getLsbD_lane (x : BitVec n) (k i : Nat) :
    (lane w x k).getLsbD i = (decide (i < w) && x.getLsbD (w * k + i)) :=
  BitVec.getLsbD_extractLsb' ..

/-- Inside the lane the new value shows. -/
theorem getLsbD_setLane_inside (x : BitVec n) {k i : Nat} (value : BitVec w) (hWidth : i < n)
    (hStart : w * k ≤ i) (hEnd : i < w * k + w) :
    (setLane x k value).getLsbD i = value.getLsbD (i - w * k) := by
  have hLane : i - w * k < w := by omega
  simp [setLane, hWidth, hLane, Nat.not_lt.mpr hStart]

/-- Outside the lane the old word shows, also where the lane reaches past the end. -/
theorem getLsbD_setLane_outside (x : BitVec n) {k i : Nat} (value : BitVec w)
    (hOutside : i < w * k ∨ w * k + w ≤ i) : (setLane x k value).getLsbD i = x.getLsbD i := by
  by_cases hWidth : i < n
  · rcases hOutside with hBelow | hAbove
    · simp [setLane, hWidth, hBelow]
    · have hLane : ¬i - w * k < w := by omega
      have hNone : value.getLsbD (i - w * k) = false := BitVec.getLsbD_of_ge _ _ (by omega)
      simp [setLane, hWidth, hLane, hNone]
  · rw [BitVec.getLsbD_of_ge _ _ (by omega), BitVec.getLsbD_of_ge _ _ (by omega)]

/-- A lane reads back what was written, when it lies inside the word. -/
theorem lane_setLane_self (x : BitVec n) {k : Nat} (value : BitVec w) (hFits : w * k + w ≤ n) :
    lane w (setLane x k value) k = value := by
  apply BitVec.eq_of_getLsbD_eq
  intro i hi
  rw [getLsbD_lane, getLsbD_setLane_inside x value (by omega) (by omega) (by omega),
    decide_eq_true hi, Bool.true_and, Nat.add_sub_cancel_left]

/-- Two lanes of one width do not overlap. -/
theorem lane_setLane_of_ne (x : BitVec n) {k l : Nat} (h : k ≠ l) (value : BitVec w) :
    lane w (setLane x k value) l = lane w x l := by
  apply BitVec.eq_of_getLsbD_eq
  intro i hi
  have hOutside : w * l + i < w * k ∨ w * k + w ≤ w * l + i := by
    rcases Nat.lt_or_gt_of_ne h with hLess | hGreater
    · have hMul := Nat.mul_le_mul_left w (Nat.succ_le_of_lt hLess)
      rw [Nat.mul_succ] at hMul
      omega
    · have hMul := Nat.mul_le_mul_left w (Nat.succ_le_of_lt hGreater)
      rw [Nat.mul_succ] at hMul
      omega
  rw [getLsbD_lane, getLsbD_lane, getLsbD_setLane_outside x value hOutside]

/-- A lane can be replaced before or after the upper bits are cut off. -/
theorem setWidth_setLane {m : Nat} (hWidth : m ≤ n) (x : BitVec n) (k : Nat) (value : BitVec w) :
    (setLane x k value).setWidth m = setLane (x.setWidth m) k value := by
  apply BitVec.eq_of_getLsbD_eq
  intro i hi
  rw [BitVec.getLsbD_setWidth, decide_eq_true hi, Bool.true_and]
  by_cases hInside : w * k ≤ i ∧ i < w * k + w
  · rw [getLsbD_setLane_inside x value (Nat.lt_of_lt_of_le hi hWidth) hInside.1 hInside.2,
      getLsbD_setLane_inside (x.setWidth m) value hi hInside.1 hInside.2]
  · have hOutside : i < w * k ∨ w * k + w ≤ i := by omega
    rw [getLsbD_setLane_outside x value hOutside,
      getLsbD_setLane_outside (x.setWidth m) value hOutside, BitVec.getLsbD_setWidth,
      decide_eq_true hi, Bool.true_and]

/-- Words with the same lanes are equal, when the lanes fill the word. -/
theorem eq_of_lanes {x y : BitVec n} (count : Nat) (hWidth : n = w * count)
    (h : ∀ k < count, lane w x k = lane w y k) : x = y := by
  apply BitVec.eq_of_getLsbD_eq
  intro i hi
  have hPos : 0 < w := Nat.pos_of_ne_zero fun hZero => by simp [hWidth, hZero] at hi
  have hIndex : i / w < count := Nat.div_lt_of_lt_mul (hWidth ▸ hi)
  have hBit := congrArg (fun v => v.getLsbD (i % w)) (h (i / w) hIndex)
  rw [getLsbD_lane, getLsbD_lane, decide_eq_true (Nat.mod_lt i hPos), Nat.div_add_mod] at hBit
  exact hBit

end Lanes
