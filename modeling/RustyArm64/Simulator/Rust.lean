import Mathlib.Algebra.Group.Nat.Defs
import RustyArm64.Base.Overwrite

/-! The parts of Rust's semantics that the simulator relies on: panics, checked
and overflow-checked arithmetic on `u64`, and byte slices. `usize` is 64 bits
wide, so lengths and indices are `UInt64` as well. -/
namespace Simulator

/-- The ways in which the modelled code could panic. -/
inductive Panic where
  /-- `register index {} out of range`. -/
  | registerIndex (index : Nat)
  /-- Overflow of `+`, `-` or of a shift amount in a build with overflow checks. -/
  | overflow
  /-- An index that is not below the length. -/
  | indexRange
  /-- A slice whose end lies before its start or past the length. -/
  | sliceRange
  /-- `copy_from_slice` between slices of different lengths. -/
  | sliceLength
  /-- `unwrap` on an `Err`. -/
  | unwrap
  deriving DecidableEq, Repr

/-- A Rust computation that finishes with a value or panics. -/
abbrev Outcome (α : Type) := Except Panic α

@[simp] theorem Outcome.ok_bind {α β : Type} (a : α) (f : α → Outcome β) :
    ((Except.ok a : Outcome α) >>= f) = f a := rfl

@[simp] theorem Outcome.error_bind {α β : Type} (p : Panic) (f : α → Outcome β) :
    ((Except.error p : Outcome α) >>= f) = Except.error p := rfl

@[simp] theorem Outcome.pure_eq {α : Type} (a : α) : (pure a : Outcome α) = Except.ok a := rfl

/-- `u64::checked_add`. -/
def checkedAdd (a b : UInt64) : Option UInt64 :=
  if a.toNat + b.toNat < 2 ^ 64 then some (a + b) else none

/-- `u32::checked_add`. -/
def checkedAddU32 (a b : UInt32) : Option UInt32 :=
  if a.toNat + b.toNat < 2 ^ 32 then some (a + b) else none

/-- `a + b` with overflow checks. -/
def add (a b : UInt64) : Outcome UInt64 :=
  if a.toNat + b.toNat < 2 ^ 64 then .ok (a + b) else .error .overflow

/-- `a - b` with overflow checks. -/
def sub (a b : UInt64) : Outcome UInt64 :=
  if b ≤ a then .ok (a - b) else .error .overflow

/-- `a << n` on `u64` with overflow checks. -/
def shl (a : UInt64) (n : UInt8) : Outcome UInt64 :=
  if n < 64 then .ok (a <<< n.toUInt64) else .error .overflow

/-- The sum, when it does not overflow; the caller decides what `none` means. -/
theorem checkedAdd_eq_some {a b : UInt64} (h : a.toNat + b.toNat < 2 ^ 64) :
    checkedAdd a b = some (a + b) := if_pos h

theorem checkedAdd_eq_none {a b : UInt64} (h : 2 ^ 64 ≤ a.toNat + b.toNat) :
    checkedAdd a b = none := if_neg (by omega)

/-- Plain `+` is modelled as in a debug build: it panics on overflow instead of wrapping. -/
theorem add_eq_ok {a b : UInt64} (h : a.toNat + b.toNat < 2 ^ 64) : add a b = .ok (a + b) :=
  if_pos h

/-- Plain `-` panics below zero, so a caller must have compared before. -/
theorem sub_eq_ok {a b : UInt64} (h : b ≤ a) : sub a b = .ok (a - b) := if_pos h

/-- Only the shift amount is checked; bits shifted out are lost without a panic. -/
theorem shl_eq_ok {a : UInt64} {n : UInt8} (h : n < 64) : shl a n = .ok (a <<< n.toUInt64) :=
  if_pos h

theorem toNat_add_of_lt {a b : UInt64} (h : a.toNat + b.toNat < 2 ^ 64) :
    (a + b).toNat = a.toNat + b.toNat := by
  rw [UInt64.toNat_add, Nat.mod_eq_of_lt h]

theorem toNat_sub_of_le {a b : UInt64} (h : b ≤ a) : (a - b).toNat = a.toNat - b.toNat :=
  UInt64.toNat_sub_of_le _ _ h

/-- The bytes behind a `Vec<u8>` or a `&[u8]`. Their number is a `usize`. -/
structure Bytes where
  toList : List UInt8
  length_lt : toList.length < 2 ^ 64
  deriving DecidableEq

namespace Bytes

@[ext] theorem ext {a b : Bytes} (h : a.toList = b.toList) : a = b := by
  cases a
  cases b
  simp_all

/-- `len()` as a `usize`. -/
def len (b : Bytes) : UInt64 := UInt64.ofNat b.toList.length

@[simp] theorem toNat_len (b : Bytes) : b.len.toNat = b.toList.length := by
  rw [len, UInt64.toNat_ofNat']
  exact Nat.mod_eq_of_lt b.length_lt

/-- `is_empty()`. -/
def isEmpty (b : Bytes) : Bool := b.toList.isEmpty

/-- The `count` bytes from `start` on. -/
def extract (b : Bytes) (start count : Nat) : Bytes :=
  ⟨(b.toList.drop start).take count, by
    have := b.length_lt
    simp only [List.length_take, List.length_drop]
    omega⟩

@[simp] theorem toList_extract (b : Bytes) (start count : Nat) :
    (b.extract start count).toList = (b.toList.drop start).take count := rfl

/-- `&b[start..stop]`. -/
def slice (b : Bytes) (start stop : UInt64) : Outcome Bytes :=
  if start ≤ stop ∧ stop ≤ b.len then .ok (b.extract start.toNat (stop.toNat - start.toNat))
  else .error .sliceRange

/-- `b[index]`. -/
def index (b : Bytes) (index : UInt64) : Outcome UInt8 :=
  match b.toList[index.toNat]? with
  | some byte => .ok byte
  | none => .error .indexRange

/-- The same bytes with those from `start` on replaced. -/
def overwrite (b : Bytes) (start : Nat) (values : List UInt8) : Bytes :=
  ⟨b.toList.overwrite start values, by simpa using b.length_lt⟩

@[simp] theorem toList_overwrite (b : Bytes) (start : Nat) (values : List UInt8) :
    (b.overwrite start values).toList = b.toList.overwrite start values := rfl

/-- `b[start..stop].copy_from_slice(src)`. -/
def copyFromSlice (b : Bytes) (start stop : UInt64) (src : Bytes) : Outcome Bytes :=
  if start ≤ stop ∧ stop ≤ b.len then
    if src.toList.length = stop.toNat - start.toNat then
      .ok (b.overwrite start.toNat src.toList)
    else .error .sliceLength
  else .error .sliceRange

/-- `b[start..stop].fill(value)`. -/
def fill (b : Bytes) (start stop : UInt64) (value : UInt8) : Outcome Bytes :=
  if start ≤ stop ∧ stop ≤ b.len then
    .ok (b.overwrite start.toNat (List.replicate (stop.toNat - start.toNat) value))
  else .error .sliceRange

/-- A range given by exact integers passes the range test of a slice. -/
theorem range_ok {b : Bytes} {start stop : UInt64}
    (hOrder : start.toNat ≤ stop.toNat) (hStop : stop.toNat ≤ b.toList.length) :
    start ≤ stop ∧ stop ≤ b.len := by
  rw [UInt64.le_iff_toNat_le, UInt64.le_iff_toNat_le, toNat_len]
  exact ⟨hOrder, hStop⟩

/-- Slicing panics on a range in the wrong order as well as on one past the end. -/
theorem slice_eq_ok {b : Bytes} {start stop : UInt64}
    (hOrder : start.toNat ≤ stop.toNat) (hStop : stop.toNat ≤ b.toList.length) :
    b.slice start stop = .ok (b.extract start.toNat (stop.toNat - start.toNat)) :=
  if_pos (range_ok hOrder hStop)

/-- `copy_from_slice` panics unless both lengths are equal. -/
theorem copyFromSlice_eq_ok (b : Bytes) (start stop : UInt64) (src : Bytes)
    (hLength : start.toNat + src.toList.length = stop.toNat)
    (hStop : stop.toNat ≤ b.toList.length) :
    b.copyFromSlice start stop src = .ok (b.overwrite start.toNat src.toList) := by
  rw [copyFromSlice, if_pos (range_ok (by omega) hStop), if_pos (by omega)]

/-- Filling an empty range is allowed, at the end of the slice too. -/
theorem fill_eq_ok (b : Bytes) (start stop : UInt64) (value : UInt8)
    (hOrder : start.toNat ≤ stop.toNat) (hStop : stop.toNat ≤ b.toList.length) :
    b.fill start stop value =
      .ok (b.overwrite start.toNat (List.replicate (stop.toNat - start.toNat) value)) :=
  if_pos (range_ok hOrder hStop)

end Bytes

end Simulator
