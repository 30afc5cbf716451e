import RustyArm64.Simulator.Rust

/-! The register file. Index 31 is the zero register of `read` and `write`; SP,
PC and the flags have accessors of their own. -/
namespace Simulator

structure Registers where
  /-- General-purpose registers X0–X30. -/
  x : Vector UInt64 31
  sp : UInt64
  pc : UInt64
  n : Bool
  z : Bool
  c : Bool
  v : Bool
  deriving DecidableEq

namespace Registers

/-- All registers zero and all flags clear. -/
def new : Registers :=
  { x := Vector.replicate 31 0, sp := 0, pc := 0, n := false, z := false, c := false, v := false }

def read (regs : Registers) (index : UInt8) : Outcome UInt64 :=
  if h : index.toNat ≤ 30 then .ok regs.x[index.toNat]
  else if index = 31 then .ok 0
  else .error (.registerIndex index.toNat)

def write (regs : Registers) (index : UInt8) (value : UInt64) : Outcome Registers :=
  if h : index.toNat ≤ 30 then .ok { regs with x := regs.x.set index.toNat value }
  else if index = 31 then .ok regs
  else .error (.registerIndex index.toNat)

def readSp (regs : Registers) : UInt64 := regs.sp

def writeSp (regs : Registers) (value : UInt64) : Registers := { regs with sp := value }

def readPc (regs : Registers) : UInt64 := regs.pc

def writePc (regs : Registers) (value : UInt64) : Registers := { regs with pc := value }

def getFlags (regs : Registers) : Bool × Bool × Bool × Bool := (regs.n, regs.z, regs.c, regs.v)

def setFlags (regs : Registers) (n z c v : Bool) : Registers := { regs with n, z, c, v }

/-- What a read of an index up to 31 finds. -/
def value (regs : Registers) (index : UInt8) : UInt64 :=
  if h : index.toNat ≤ 30 then regs.x[index.toNat] else 0

/-- What a write to an index up to 31 leaves. -/
def put (regs : Registers) (index : UInt8) (value : UInt64) : Registers :=
  if h : index.toNat ≤ 30 then { regs with x := regs.x.set index.toNat value } else regs

/-- The zero register is the only index up to 31 that is not of a general-purpose register.
Larger indices are not excluded elsewhere: `read` and `write` panic on them. -/
theorem eq_of_not_general {index : UInt8} (h : ¬ index.toNat ≤ 30) (hIndex : index ≤ 31) :
    index = 31 := by
  rw [UInt8.le_iff_toNat_le] at hIndex
  apply UInt8.toNat_inj.mp
  have : (31 : UInt8).toNat = 31 := rfl
  omega

/-- A read of an index up to 31 does not panic. Nothing is said of a larger index, which no
decoded instruction has. -/
theorem read_eq {regs : Registers} {index : UInt8} (hIndex : index ≤ 31) :
    regs.read index = .ok (regs.value index) := by
  unfold read value
  split
  · rfl
  · rename_i h
    rw [if_pos (eq_of_not_general h hIndex)]

/-- A write to an index up to 31 does not panic, and one to the zero register is lost. -/
theorem write_eq {regs : Registers} {index : UInt8} {value : UInt64} (hIndex : index ≤ 31) :
    regs.write index value = .ok (regs.put index value) := by
  unfold write put
  split
  · rfl
  · rename_i h
    rw [if_pos (eq_of_not_general h hIndex)]

section Put

variable (regs : Registers) (index : UInt8) (word : UInt64)

@[simp] theorem put_sp : (regs.put index word).sp = regs.sp := by unfold put; split <;> rfl
@[simp] theorem put_pc : (regs.put index word).pc = regs.pc := by unfold put; split <;> rfl
@[simp] theorem put_n : (regs.put index word).n = regs.n := by unfold put; split <;> rfl
@[simp] theorem put_z : (regs.put index word).z = regs.z := by unfold put; split <;> rfl
@[simp] theorem put_c : (regs.put index word).c = regs.c := by unfold put; split <;> rfl
@[simp] theorem put_v : (regs.put index word).v = regs.v := by unfold put; split <;> rfl

@[simp] theorem writePc_x (pc : UInt64) : (regs.writePc pc).x = regs.x := rfl
@[simp] theorem writePc_sp (pc : UInt64) : (regs.writePc pc).sp = regs.sp := rfl
@[simp] theorem writePc_pc (pc : UInt64) : (regs.writePc pc).pc = pc := rfl
@[simp] theorem writePc_n (pc : UInt64) : (regs.writePc pc).n = regs.n := rfl
@[simp] theorem writePc_z (pc : UInt64) : (regs.writePc pc).z = regs.z := rfl
@[simp] theorem writePc_c (pc : UInt64) : (regs.writePc pc).c = regs.c := rfl
@[simp] theorem writePc_v (pc : UInt64) : (regs.writePc pc).v = regs.v := rfl

@[simp] theorem value_writePc (pc : UInt64) :
    (regs.writePc pc).value index = regs.value index := rfl

/-- The PC and the general-purpose registers are written independently of each other. -/
theorem put_writePc (pc : UInt64) :
    (regs.writePc pc).put index word = (regs.put index word).writePc pc := by
  unfold put
  split <;> rfl

@[simp] theorem value_writeSp (sp : UInt64) :
    (regs.writeSp sp).value index = regs.value index := rfl

/-- SP is no general-purpose register: index 31 does not reach it through `put`. -/
theorem put_writeSp (sp : UInt64) :
    (regs.writeSp sp).put index word = (regs.put index word).writeSp sp := by
  unfold put
  split <;> rfl

theorem writePc_writePc (pc pc' : UInt64) : (regs.writePc pc).writePc pc' = regs.writePc pc' := rfl

end Put

/-- A written general-purpose register reads back; the zero register stays 0. -/
theorem value_put_self (regs : Registers) {index : UInt8} (hIndex : index.toNat ≤ 30)
    (word : UInt64) : (regs.put index word).value index = word := by
  simp [put, value, hIndex]

/-- A write leaves every other index as it was, and one to index 31 leaves all of them. -/
theorem value_put_of_ne (regs : Registers) {index other : UInt8} (h : index ≠ other)
    (word : UInt64) : (regs.put index word).value other = regs.value other := by
  have hNat : index.toNat ≠ other.toNat := fun hEq => h (UInt8.toNat_inj.mp hEq)
  unfold put value
  by_cases hIndex : index.toNat ≤ 30
  · by_cases hOther : other.toNat ≤ 30
    · simp only [hIndex, hOther, dif_pos]
      exact Vector.getElem_set_ne _ _ hNat
    · simp [hOther]
  · simp [hIndex]

theorem le_of_le_thirty {index : UInt8} (h : index ≤ 30) : index ≤ 31 :=
  UInt8.le_trans h (by decide)

/-- A read that returns tells that its index is in range, and what it found there. -/
theorem of_read_ok {regs : Registers} {index : UInt8} {word : UInt64}
    (h : regs.read index = .ok word) : index ≤ 31 ∧ regs.value index = word := by
  unfold read at h
  unfold value
  split at h
  · rename_i hIndex
    rw [dif_pos hIndex]
    exact ⟨le_of_le_thirty hIndex, Except.ok.inj h⟩
  · rename_i hIndex
    split at h
    · rename_i hZero
      rw [dif_neg hIndex, hZero]
      exact ⟨UInt8.le_refl 31, Except.ok.inj h⟩
    · cases h

/-- What was written to X0 to X30 is read back. Index 31 is left out, as it reads 0. -/
theorem read_put_self (regs : Registers) {index : UInt8} (hIndex : index ≤ 30) (word : UInt64) :
    (regs.put index word).read index = .ok word := by
  rw [read_eq (le_of_le_thirty hIndex), value_put_self regs hIndex]

/-- Also a read that panics does so as before: the index decides it, and no register. -/
theorem read_put_of_ne (regs : Registers) {index other : UInt8} (h : index ≠ other)
    (word : UInt64) : (regs.put index word).read other = regs.read other := by
  by_cases hOther : other ≤ 31
  · rw [read_eq hOther, read_eq hOther, value_put_of_ne regs h]
  · have hGeneral : ¬ other.toNat ≤ 30 := fun hLe => hOther (le_of_le_thirty hLe)
    have hZero : other ≠ 31 := fun hEq => hOther (hEq ▸ UInt8.le_refl 31)
    simp only [read, hGeneral, hZero, dite_false, if_false]

/-- The zero register reads 0 whatever was written. -/
theorem value_thirtyOne (regs : Registers) : regs.value 31 = 0 := rfl

end Registers

end Simulator
