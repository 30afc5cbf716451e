import RustyArm64.Base.AddWithCarry
import RustyArm64.Base.Lanes

/-! A reference machine for two instruction classes of A64, add/subtract (immediate)
and move wide (immediate), on instruction words. Every other word is undefined. -/
namespace A64

open BitVec (Nzcv addSubResult)

structure State where
  x : Vector (BitVec 64) 31
  sp : BitVec 64
  pc : BitVec 64
  flags : Nzcv
  deriving DecidableEq

namespace State

variable (state : State) (index : BitVec 5)

/-- The register of an operand for which index 31 is the zero register. -/
def general : BitVec 64 := if h : index.toNat < 31 then state.x[index.toNat] else 0

def setGeneral (value : BitVec 64) : State :=
  if h : index.toNat < 31 then { state with x := state.x.set index.toNat value } else state

/-- The register of an operand for which index 31 is the stack pointer. -/
def generalOrSp : BitVec 64 := if index = 31 then state.sp else state.general index

def setGeneralOrSp (value : BitVec 64) : State :=
  if index = 31 then { state with sp := value } else state.setGeneral index value

theorem setGeneral_pc (value : BitVec 64) : (state.setGeneral index value).pc = state.pc := by
  unfold setGeneral
  split <;> rfl

theorem setGeneralOrSp_pc (value : BitVec 64) :
    (state.setGeneralOrSp index value).pc = state.pc := by
  unfold setGeneralOrSp
  split
  · rfl
  · exact state.setGeneral_pc index value

end State

/-- ADD, ADDS, SUB and SUBS (immediate) on operands of `w` bits. The destination is
the stack pointer only where no flags are set. -/
def addSub (w : Nat) (op s sh : Bool) (imm12 : BitVec 12) (rn rd : BitVec 5) (state : State) :
    State :=
  let operand : BitVec w := imm12.setWidth w <<< (if sh then 12 else 0)
  let out := addSubResult op ((state.generalOrSp rn).setWidth w) operand
  let value := out.1.setWidth 64
  if s then { state.setGeneral rd value with flags := out.2 } else state.setGeneralOrSp rd value

theorem addSub_pc (w : Nat) (op s sh : Bool) (imm12 : BitVec 12) (rn rd : BitVec 5)
    (state : State) : (addSub w op s sh imm12 rn rd state).pc = state.pc := by
  cases s with
  | false => exact state.setGeneralOrSp_pc ..
  | true => exact state.setGeneral_pc ..

/-- The value that MOVN, MOVZ and MOVK build from the old one. -/
def movWideResult {w : Nat} (opc hw : BitVec 2) (imm16 : BitVec 16) (old : BitVec w) : BitVec w :=
  let moved := Lanes.setLane (if opc = 0b11 then old else 0) hw.toNat imm16
  if opc = 0b00 then ~~~moved else moved

def movWide (w : Nat) (opc hw : BitVec 2) (imm16 : BitVec 16) (rd : BitVec 5) (state : State) :
    State :=
  let value : BitVec w := movWideResult opc hw imm16 ((state.general rd).setWidth w)
  state.setGeneral rd (value.setWidth 64)

section Word

variable (word : BitVec 32)

/-- The operand size. -/
def width : Nat := if word.getLsbD 31 then 64 else 32

def IsAddSub : Prop := word.extractLsb' 23 6 = 0b100010

def IsMovWide : Prop := word.extractLsb' 23 6 = 0b100101

/-- The reserved `opc`, or a shift past the end of a 32-bit register. -/
def ReservedMove : Prop :=
  word.extractLsb' 29 2 = 0b01 ∨ word.getLsbD 31 = false ∧ word.getLsbD 22 = true

instance : Decidable (IsAddSub word) := inferInstanceAs (Decidable (_ = _))
instance : Decidable (IsMovWide word) := inferInstanceAs (Decidable (_ = _))
instance : Decidable (ReservedMove word) := inferInstanceAs (Decidable (_ ∨ _))

/-- The effect of an instruction word, but for the PC. -/
def execute (state : State) : Option State :=
  if IsAddSub word then
    some (addSub (width word) (word.getLsbD 30) (word.getLsbD 29) (word.getLsbD 22)
      (word.extractLsb' 10 12) (word.extractLsb' 5 5) (word.extractLsb' 0 5) state)
  else if IsMovWide word ∧ ¬ReservedMove word then
    some (movWide (width word) (word.extractLsb' 29 2) (word.extractLsb' 21 2)
      (word.extractLsb' 5 16) (word.extractLsb' 0 5) state)
  else none

variable {word}

/-- The two classes execute straight on: they never write the PC. -/
theorem execute_pc {state next : State} (h : execute word state = some next) :
    next.pc = state.pc := by
  unfold execute at h
  split_ifs at h
  · obtain rfl := Option.some.inj h
    exact addSub_pc ..
  · obtain rfl := Option.some.inj h
    exact state.setGeneral_pc ..

end Word

section Run

variable (code : BitVec 64 → Option (BitVec 32))

/-- Fetch and execute one instruction. There is no next state where the code has no
word or an undefined one. -/
def step (state : State) : Option State :=
  (code state.pc).bind fun word =>
    (execute word state).map fun next => { next with pc := state.pc + 4 }

def runFor : Nat → State → Option State
  | 0, state => some state
  | n + 1, state => (step code state).bind (runFor n)

variable {code} {word : BitVec 32} {state : State}

/-- One step where an instruction is mapped. It is undefined when the word is in neither class. -/
theorem step_of_code (hCode : code state.pc = some word) :
    step code state =
      (execute word state).map fun next => { next with pc := state.pc + 4 } := by
  rw [step, hCode, Option.bind_some]

/-- Without an instruction at the PC there is no step. -/
theorem step_none (hCode : code state.pc = none) : step code state = none := by
  rw [step, hCode, Option.bind_none]

/-- A run of one step more is a run from the next state. -/
theorem runFor_succ_of_step {n : Nat} {next : State} (hStep : step code state = some next) :
    runFor code (n + 1) state = runFor code n next := by
  rw [runFor, hStep, Option.bind_some]

end Run

/-- A simulation in lockstep: a machine whose next states the reference machine
reaches in one step each is followed by it for any number of steps. -/
theorem runFor_of_lockstep {Machine : Type} {code : BitVec 64 → Option (BitVec 32)}
    (view : Machine → State) (visited : Nat → Machine) (n : Nat)
    (hStep : ∀ k < n, step code (view (visited k)) = some (view (visited (k + 1)))) :
    runFor code n (view (visited 0)) = some (view (visited n)) := by
  induction n generalizing visited with
  | zero => rfl
  | succ n ih =>
      rw [runFor_succ_of_step (hStep 0 (Nat.zero_lt_succ n))]
      exact ih (fun k => visited (k + 1)) fun k hk => hStep (k + 1) (Nat.succ_lt_succ hk)

end A64
