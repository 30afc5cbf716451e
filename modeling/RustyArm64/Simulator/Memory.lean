import RustyArm64.Base.LittleEndian
import RustyArm64.Simulator.Rust

/-! The flat byte-addressable memory. Every operation is characterised by its
byte range in exact integers: it never panics, and it fails without any effect
when the range leaves the memory. -/
namespace Simulator

inductive MemoryError where
  /-- Address was out of valid range. -/
  | outOfBounds (addr : UInt64)
  /-- Access was misaligned. -/
  | misaligned (addr : UInt64)
  deriving DecidableEq, Repr

structure Memory where
  data : Bytes
  deriving DecidableEq

/-- `u32::from_le_bytes`. -/
def fromLeBytes (bytes : List UInt8) : UInt32 := UInt32.ofNat (LittleEndian.value bytes)

/-- `u32::to_le_bytes`. -/
def toLeBytes (word : UInt32) : List UInt8 := LittleEndian.encode 4 word.toNat

@[simp] theorem toLeBytes_length (word : UInt32) : (toLeBytes word).length = 4 :=
  LittleEndian.encode_length _ _

theorem fromLeBytes_toLeBytes (word : UInt32) : fromLeBytes (toLeBytes word) = word := by
  have hWord := word.toNat_lt
  rw [fromLeBytes, toLeBytes, LittleEndian.value_encode (by omega), UInt32.ofNat_toNat]

namespace Memory

/-- A new zero-initialised memory of `size` bytes. -/
def new (size : UInt64) : Memory :=
  ⟨⟨List.replicate size.toNat 0, by simpa using size.toNat_lt⟩⟩

def len (m : Memory) : UInt64 := m.data.len

/-- The bytes of the memory, from address 0 on. -/
def bytes (m : Memory) : List UInt8 := m.data.toList

@[ext] theorem ext {m m' : Memory} (h : m.bytes = m'.bytes) : m = m' := by
  cases m
  cases m'
  congr
  exact Bytes.ext h

/-- A slice is never longer than its length type can say. -/
theorem bytes_length_lt (m : Memory) : m.bytes.length < 2 ^ 64 := m.data.length_lt

@[simp] theorem toNat_len (m : Memory) : m.len.toNat = m.bytes.length := m.data.toNat_len

@[simp] theorem bytes_new (size : UInt64) : (new size).bytes = List.replicate size.toNat 0 := rfl

/-- Read a little-endian `u32` from the given address. -/
def readU32 (m : Memory) (addr : UInt64) : Outcome (Except MemoryError UInt32) :=
  match checkedAdd addr 3 with
  | none => return .error (.outOfBounds addr)
  | some last =>
    if last ≥ m.len then return .error (.outOfBounds addr)
    else do
      let base := addr
      let word ← m.data.slice base (← add base 4)
      if word.toList.length = 4 then return .ok (fromLeBytes word.toList)
      else .error .unwrap

/-- Write a `u32` value as four little-endian bytes at the given address. -/
def writeU32 (m : Memory) (addr : UInt64) (val : UInt32) :
    Outcome (Except MemoryError Unit × Memory) :=
  match checkedAdd addr 3 with
  | none => return (.error (.outOfBounds addr), m)
  | some last =>
    if last ≥ m.len then return (.error (.outOfBounds addr), m)
    else do
      let base := addr
      let data ← m.data.copyFromSlice base (← add base 4) ⟨toLeBytes val, by simp⟩
      return (.ok (), { m with data })

/-- Write an arbitrary slice of bytes starting at the given address. -/
def writeBytes (m : Memory) (addr : UInt64) (data : Bytes) :
    Outcome (Except MemoryError Unit × Memory) :=
  let lenU64 := data.len
  match checkedAdd addr lenU64 with
  | none => return (.error (.outOfBounds addr), m)
  | some stop =>
    -- Nothing to write: succeed regardless of the address.
    if data.isEmpty then return (.ok (), m)
    else do
      let last ← sub stop 1
      if last ≥ m.len then return (.error (.outOfBounds addr), m)
      else
        let base := addr
        let written ← m.data.copyFromSlice base (← add base data.len) data
        return (.ok (), { m with data := written })

/-- Zero `size` bytes starting at `addr`. -/
def fillZeros (m : Memory) (addr : UInt64) (size : UInt64) :
    Outcome (Except MemoryError Unit × Memory) :=
  if size = 0 then return (.ok (), m)
  else
    match checkedAdd addr size with
    | none => return (.error (.outOfBounds addr), m)
    | some stop => do
      let last ← sub stop 1
      if last ≥ m.len then return (.error (.outOfBounds addr), m)
      else
        let base := addr
        let data ← m.data.fill base (← add base size) 0
        return (.ok (), { m with data })

/-- The word at an exact address, when its four bytes are all inside. -/
def word? (m : Memory) (a : Nat) : Option UInt32 :=
  if a + 4 ≤ m.bytes.length then some (fromLeBytes ((m.bytes.drop a).take 4)) else none

/-- The memory with the bytes from `a` on replaced. The size is kept. -/
def store (m : Memory) (a : Nat) (values : List UInt8) : Memory := ⟨m.data.overwrite a values⟩

@[simp] theorem bytes_store (m : Memory) (a : Nat) (values : List UInt8) :
    (m.store a values).bytes = m.bytes.overwrite a values := rfl

@[simp] theorem store_nil (m : Memory) (a : Nat) : m.store a [] = m := by
  ext1
  simp

theorem word?_eq_some {m : Memory} {a : Nat} (h : a + 4 ≤ m.bytes.length) :
    m.word? a = some (fromLeBytes ((m.bytes.drop a).take 4)) := if_pos h

/-- No word is read across the end of memory, not even in part. -/
theorem word?_eq_none {m : Memory} {a : Nat} (h : m.bytes.length < a + 4) : m.word? a = none :=
  if_neg (by omega)

theorem word?_isSome {m : Memory} {a : Nat} {word : UInt32} (h : m.word? a = some word) :
    a + 4 ≤ m.bytes.length := by
  by_contra hOut
  rw [word?_eq_none (by omega)] at h
  cases h

/-- The bounds test on the last byte of a word, when the end does not wrap. -/
theorem word_outside_iff (m : Memory) {addr : UInt64} (hWrap : addr.toNat + 3 < 2 ^ 64) :
    addr + 3 ≥ m.len ↔ ¬ addr.toNat + 4 ≤ m.bytes.length := by
  have hThree : (3 : UInt64).toNat = 3 := rfl
  rw [ge_iff_le, UInt64.le_iff_toNat_le, toNat_len, toNat_add_of_lt (by omega)]
  omega

section Range

variable {addr size : UInt64}

/-- The end of a range that does not wrap around is no smaller than one. -/
theorem one_le_stop (hSize : 0 < size.toNat) (hWrap : addr.toNat + size.toNat < 2 ^ 64) :
    1 ≤ addr + size := by
  have hOne : (1 : UInt64).toNat = 1 := rfl
  rw [UInt64.le_iff_toNat_le, toNat_add_of_lt hWrap]
  omega

/-- The bounds test on the last byte of a range, when the end does not wrap. -/
theorem range_outside_iff (m : Memory) (hSize : 0 < size.toNat)
    (hWrap : addr.toNat + size.toNat < 2 ^ 64) :
    addr + size - 1 ≥ m.len ↔ ¬ addr.toNat + size.toNat ≤ m.bytes.length := by
  have hOne : (1 : UInt64).toNat = 1 := rfl
  rw [ge_iff_le, UInt64.le_iff_toNat_le, toNat_len, toNat_sub_of_le (one_le_stop hSize hWrap),
    toNat_add_of_lt hWrap]
  omega

end Range

/-- A read never panics and returns the little-endian word, or fails exactly
when one of the four bytes is missing. Addresses near `u64::MAX` included. -/
theorem readU32_eq (m : Memory) (addr : UInt64) :
    m.readU32 addr = .ok (match m.word? addr.toNat with
      | some word => .ok word
      | none => .error (.outOfBounds addr)) := by
  have hSize := m.bytes_length_lt
  have hThree : (3 : UInt64).toNat = 3 := rfl
  have hFour : (4 : UInt64).toNat = 4 := rfl
  by_cases hFits : addr.toNat + 4 ≤ m.bytes.length
  · have hStop : (addr + 4).toNat = addr.toNat + 4 := toNat_add_of_lt (by omega)
    have hInside : ¬ addr + 3 ≥ m.len := mt (word_outside_iff m (by omega)).mp (not_not.mpr hFits)
    have hTake : ((m.bytes.drop addr.toNat).take 4).length = 4 := by
      rw [List.length_take, List.length_drop]
      omega
    have hSlice : m.data.slice addr (addr + 4) = .ok (m.data.extract addr.toNat 4) := by
      rw [Bytes.slice_eq_ok (by omega) (by rw [hStop]; exact hFits), hStop, Nat.add_sub_cancel_left]
    rw [word?_eq_some hFits, readU32, checkedAdd_eq_some (by omega)]
    have hBase : add addr 4 = .ok (addr + 4) := add_eq_ok (by omega)
    simp only [hInside, if_false, hBase,
      Outcome.ok_bind, hSlice, Bytes.toList_extract]
    exact if_pos hTake
  · rw [word?_eq_none (by omega), readU32]
    by_cases hWrap : addr.toNat + 3 < 2 ^ 64
    · rw [checkedAdd_eq_some (by omega)]
      exact if_pos ((word_outside_iff m hWrap).mpr hFits)
    · rw [checkedAdd_eq_none (by omega)]
      rfl

/-- A word is written as a whole or not at all; the address is the only thing reported. -/
theorem writeU32_eq (m : Memory) (addr : UInt64) (val : UInt32) :
    m.writeU32 addr val = .ok
      (if addr.toNat + 4 ≤ m.bytes.length then (.ok (), m.store addr.toNat (toLeBytes val))
      else (.error (.outOfBounds addr), m)) := by
  have hSize := m.bytes_length_lt
  have hThree : (3 : UInt64).toNat = 3 := rfl
  have hFour : (4 : UInt64).toNat = 4 := rfl
  by_cases hFits : addr.toNat + 4 ≤ m.bytes.length
  · have hStop : (addr + 4).toNat = addr.toNat + 4 := toNat_add_of_lt (by omega)
    have hInside : ¬ addr + 3 ≥ m.len := mt (word_outside_iff m (by omega)).mp (not_not.mpr hFits)
    have hCopy := Bytes.copyFromSlice_eq_ok m.data addr (addr + 4) ⟨toLeBytes val, by simp⟩
      (by simp [hStop]) (by rw [hStop]; exact hFits)
    rw [if_pos hFits, writeU32, checkedAdd_eq_some (by omega)]
    have hBase : add addr 4 = .ok (addr + 4) := add_eq_ok (by omega)
    simp only [hInside, if_false, hBase,
      Outcome.ok_bind, hCopy]
    rfl
  · rw [if_neg hFits, writeU32]
    by_cases hWrap : addr.toNat + 3 < 2 ^ 64
    · rw [checkedAdd_eq_some (by omega)]
      exact if_pos ((word_outside_iff m hWrap).mpr hFits)
    · rw [checkedAdd_eq_none (by omega)]
      rfl

/-- A write of a byte slice succeeds exactly when the slice is empty or its
range lies inside, and then stores it. A failed write changes nothing. -/
theorem writeBytes_eq (m : Memory) (addr : UInt64) (data : Bytes) :
    m.writeBytes addr data = .ok
      (if data.toList = [] ∨ addr.toNat + data.toList.length ≤ m.bytes.length then
        (.ok (), m.store addr.toNat data.toList)
      else (.error (.outOfBounds addr), m)) := by
  have hSize := m.bytes_length_lt
  have hLen := data.toNat_len
  by_cases hEmpty : data.toList = []
  · have hZero : data.toList.length = 0 := by simp [hEmpty]
    have hAddr := addr.toNat_lt
    rw [if_pos (Or.inl hEmpty), writeBytes, checkedAdd_eq_some (by omega)]
    simp [Bytes.isEmpty, hEmpty]
  have hPos : 0 < data.len.toNat := by
    rw [hLen]
    exact List.length_pos_iff.mpr hEmpty
  have hTest : data.isEmpty = false := by simpa [Bytes.isEmpty] using hEmpty
  rw [← hLen]
  by_cases hFits : addr.toNat + data.len.toNat ≤ m.bytes.length
  · have hWrap : addr.toNat + data.len.toNat < 2 ^ 64 := by omega
    have hStop := toNat_add_of_lt hWrap
    have hInside := mt (range_outside_iff m hPos hWrap).mp (not_not.mpr hFits)
    have hCopy := Bytes.copyFromSlice_eq_ok m.data addr (addr + data.len) data
      (by rw [hStop, hLen]) (by rw [hStop]; exact hFits)
    rw [if_pos (Or.inr hFits), writeBytes, checkedAdd_eq_some hWrap]
    simp only [hTest, Bool.false_eq_true, if_false, sub_eq_ok (one_le_stop hPos hWrap),
      Outcome.ok_bind, hInside, add_eq_ok hWrap, hCopy]
    rfl
  · rw [if_neg (not_or.mpr ⟨hEmpty, hFits⟩), writeBytes]
    by_cases hWrap : addr.toNat + data.len.toNat < 2 ^ 64
    · have hOutside := (range_outside_iff m hPos hWrap).mpr hFits
      rw [checkedAdd_eq_some hWrap]
      simp only [hTest, Bool.false_eq_true, if_false, sub_eq_ok (one_le_stop hPos hWrap),
        Outcome.ok_bind, hOutside, if_true]
      rfl
    · rw [checkedAdd_eq_none (by omega)]
      rfl

/-- Zero-filling behaves as a write of `size` zero bytes. -/
theorem fillZeros_eq (m : Memory) (addr size : UInt64) :
    m.fillZeros addr size = .ok
      (if size.toNat = 0 ∨ addr.toNat + size.toNat ≤ m.bytes.length then
        (.ok (), m.store addr.toNat (List.replicate size.toNat 0))
      else (.error (.outOfBounds addr), m)) := by
  have hSize := m.bytes_length_lt
  by_cases hZero : size = 0
  · subst hZero
    simp [fillZeros]
  have hPos : 0 < size.toNat := Nat.pos_of_ne_zero fun h => hZero (UInt64.toNat_inj.mp h)
  by_cases hFits : addr.toNat + size.toNat ≤ m.bytes.length
  · have hWrap : addr.toNat + size.toNat < 2 ^ 64 := by omega
    have hStop := toNat_add_of_lt hWrap
    have hInside := mt (range_outside_iff m hPos hWrap).mp (not_not.mpr hFits)
    have hFill := Bytes.fill_eq_ok m.data addr (addr + size) 0 (by omega)
      (by rw [hStop]; exact hFits)
    rw [hStop, Nat.add_sub_cancel_left] at hFill
    rw [if_pos (Or.inr hFits), fillZeros, if_neg hZero, checkedAdd_eq_some hWrap]
    simp only [sub_eq_ok (one_le_stop hPos hWrap), Outcome.ok_bind, hInside, if_false,
      add_eq_ok hWrap, hFill]
    rfl
  · rw [if_neg (by omega), fillZeros, if_neg hZero]
    by_cases hWrap : addr.toNat + size.toNat < 2 ^ 64
    · have hOutside := (range_outside_iff m hPos hWrap).mpr hFits
      rw [checkedAdd_eq_some hWrap]
      simp only [sub_eq_ok (one_le_stop hPos hWrap), Outcome.ok_bind, hOutside, if_true]
      rfl
    · rw [checkedAdd_eq_none (by omega)]
      rfl

end Memory

end Simulator
