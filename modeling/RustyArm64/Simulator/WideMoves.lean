import RustyArm64.Base.Lanes
import RustyArm64.Base.LastWriter
import RustyArm64.Simulator.Run

/-! Sequences of 64-bit wide moves to one register. MOVK acts on one lane of 16
bits, so a sequence leaves in every lane what its last MOVK to it has put there. -/
namespace Simulator

open Lanes (setLane)

/-- The 16-bit lane `k` of a register. -/
def laneOf (word : UInt64) (k : Nat) : UInt16 := ⟨Lanes.lane 16 word.toBitVec k⟩

/-- The lane that a wide move addresses, and its immediate. -/
structure LaneMove where
  lane : Fin 4
  imm16 : UInt16
  deriving DecidableEq, Repr

/-- The shift amount of a lane: 0, 16, 32 or 48. -/
def LaneMove.hw (move : LaneMove) : UInt8 := UInt8.ofNat (16 * move.lane)

/-- MOVK with `sf = 1`. -/
def movk (rd : UInt8) (move : LaneMove) : Instruction :=
  .movWideImmediate true 0b11 move.hw move.imm16 rd

/-- MOVZ with `sf = 1`. -/
def movz (rd : UInt8) (move : LaneMove) : Instruction :=
  .movWideImmediate true 0b10 move.hw move.imm16 rd

/-- All but the general-purpose register `rd` is as before. -/
structure SameButFor (rd : UInt8) (regs final : Registers) : Prop where
  x : ∀ other, other ≠ rd → final.value other = regs.value other
  sp : final.sp = regs.sp
  pc : final.pc = regs.pc
  flags : final.getFlags = regs.getFlags

theorem SameButFor.refl (rd : UInt8) (regs : Registers) : SameButFor rd regs regs :=
  ⟨fun _ _ => rfl, rfl, rfl, rfl⟩

/-- Another write to the destination changes nothing else. -/
theorem SameButFor.put {rd : UInt8} {regs final : Registers} (h : SameButFor rd regs final)
    (word : UInt64) : SameButFor rd regs (final.put rd word) where
  x other hOther := (Registers.value_put_of_ne final hOther.symm word).trans (h.x other hOther)
  sp := (Registers.put_sp final rd word).trans h.sp
  pc := (Registers.put_pc final rd word).trans h.pc
  flags := by
    rw [← h.flags]
    simp [Registers.getFlags]

section Lane

theorem toNat_hw (move : LaneMove) : move.hw.toNat = 16 * move.lane := by
  have hLane := move.lane.isLt
  rw [LaneMove.hw, UInt8.toNat_ofNat']
  omega

/-- A lane is a legal shift amount of the wide form, so the move is one of the decoder. -/
theorem laneMove_wellFormed {rd opc : UInt8} (hRd : rd ≤ 30) (hOpc : opc ≤ 3) (move : LaneMove) :
    (Instruction.movWideImmediate true opc move.hw move.imm16 rd).WellFormed := by
  have hLane := move.lane.isLt
  have hHw := toNat_hw move
  refine ⟨hOpc, ?_, ⟨move.lane, hHw⟩, Registers.le_of_le_thirty hRd⟩
  rw [UInt8.le_iff_toNat_le, hHw, show (48 : UInt8).toNat = 48 from rfl]
  omega

/-- The shift by `hw` moves a half-word to its lane. No bit is lost: four lanes fill a word. -/
theorem toBitVec_shiftLeft_hw (a : UInt64) (move : LaneMove) :
    (a <<< move.hw.toUInt64).toBitVec = a.toBitVec <<< (16 * move.lane.val) := by
  have hLane := move.lane.isLt
  have hShift : (move.hw.toUInt64.toBitVec % 64).toNat = 16 * move.lane := by
    rw [BitVec.toNat_umod, UInt64.toNat_toBitVec, UInt8.toNat_toUInt64, toNat_hw,
      show (64 : BitVec 64).toNat = 64 from rfl]
    omega
  rw [UInt64.toBitVec_shiftLeft, BitVec.shiftLeft_eq', hShift]

/-- MOVK replaces a lane. -/
theorem effect_movk (regs : Registers) (rd : UInt8) (move : LaneMove) :
    effect regs (movk rd move) = regs.put rd
      ⟨setLane (regs.value rd).toBitVec move.lane move.imm16.toBitVec⟩ := by
  have hMask : (BitVec.allOnes 16).setWidth 64 = (0xFFFF : UInt64).toBitVec := by decide
  have hResult : movWideResult true 0b11 move.hw move.imm16 (regs.value rd) =
      some ⟨setLane (regs.value rd).toBitVec move.lane move.imm16.toBitVec⟩ := by
    apply congrArg some
    apply UInt64.toBitVec_inj.mp
    dsimp only
    rw [if_pos rfl, UInt64.toBitVec_or, UInt64.toBitVec_and, UInt64.toBitVec_not,
      toBitVec_shiftLeft_hw, toBitVec_shiftLeft_hw, setLane, hMask]
    rfl
  rw [movk, effect, hResult]

/-- MOVZ replaces a lane of zero. -/
theorem effect_movz (regs : Registers) (rd : UInt8) (move : LaneMove) :
    effect regs (movz rd move) = regs.put rd ⟨setLane 0 move.lane move.imm16.toBitVec⟩ := by
  have hResult : movWideResult true 0b10 move.hw move.imm16 (regs.value rd) =
      some ⟨setLane 0 move.lane move.imm16.toBitVec⟩ := by
    apply congrArg some
    apply UInt64.toBitVec_inj.mp
    dsimp only
    rw [if_pos rfl, toBitVec_shiftLeft_hw, setLane]
    simp
  rw [movz, effect, hResult]

/-- The lane read back after a replacement. -/
theorem laneOf_put {rd : UInt8} (hRd : rd.toNat ≤ 30) (regs : Registers) (x : BitVec 64)
    (k l : Fin 4) (imm16 : UInt16) :
    laneOf ((regs.put rd ⟨setLane x k imm16.toBitVec⟩).value rd) l =
      if k = l then imm16 else laneOf ⟨x⟩ l := by
  rw [Registers.value_put_self regs hRd, laneOf]
  split
  · rename_i hEq
    have hLane := k.isLt
    rw [← hEq, Lanes.lane_setLane_self x _ (by omega)]
  · rename_i hNe
    rw [Lanes.lane_setLane_of_ne x (fun hEq => hNe (Fin.ext hEq))]
    rfl

/-- Two words with the same four lanes are equal. -/
theorem eq_of_laneOf {a b : UInt64} (h : ∀ k : Fin 4, laneOf a k = laneOf b k) : a = b := by
  apply UInt64.toBitVec_inj.mp
  refine Lanes.eq_of_lanes (w := 16) 4 rfl fun k hk => ?_
  exact congrArg UInt16.toBitVec (h ⟨k, hk⟩)

end Lane

section Moves

variable {rd : UInt8}

/-- The lane after a sequence is the immediate of the last move to it. -/
theorem laneOf_foldl_movk (hRd : rd ≤ 30) (moves : List LaneMove) (regs : Registers) (k : Fin 4) :
    laneOf (((moves.map (movk rd)).foldl effect regs).value rd) k =
      ((moves.reverse.find? fun move => move.lane = k).map LaneMove.imm16).getD
        (laneOf (regs.value rd) k) := by
  rw [List.foldl_map]
  refine LastWriter.foldl_eq_find? (fun regs : Registers => laneOf (regs.value rd) k) ?_ ?_
    moves regs
  · intro regs move hWrites
    rw [effect_movk, laneOf_put hRd, if_pos (of_decide_eq_true hWrites)]
  · intro regs move hOther
    rw [effect_movk, laneOf_put hRd, if_neg (of_decide_eq_false hOther)]

/-- A list of MOVKs touches its destination only, however long it is. -/
theorem sameButFor_foldl_movk (moves : List LaneMove) {regs start : Registers}
    (h : SameButFor rd regs start) :
    SameButFor rd regs ((moves.map (movk rd)).foldl effect start) := by
  induction moves generalizing start with
  | nil => exact h
  | cons move rest ih =>
      rw [List.map_cons, List.foldl_cons, effect_movk]
      exact ih (h.put _)

/-- Two results of moves to one register differ at most in it. -/
theorem eq_of_sameButFor {regs left right : Registers} (hLeft : SameButFor rd regs left)
    (hRight : SameButFor rd regs right) (hValue : left.value rd = right.value rd) :
    left = right := by
  have hX : left.x = right.x := by
    apply Vector.ext
    intro i hi
    have hIndex : (UInt8.ofNat i).toNat = i := by
      rw [UInt8.toNat_ofNat']
      omega
    have hSame : left.value (UInt8.ofNat i) = right.value (UInt8.ofNat i) := by
      by_cases hRd : UInt8.ofNat i = rd
      · rw [hRd, hValue]
      · rw [hLeft.x _ hRd, hRight.x _ hRd]
    have hLe : i ≤ 30 := by omega
    simpa [Registers.value, hIndex, hLe] using hSame
  have hFlags := hLeft.flags.trans hRight.flags.symm
  have hSp := hLeft.sp.trans hRight.sp.symm
  have hPc := hLeft.pc.trans hRight.pc.symm
  obtain ⟨x, sp, pc, n, z, c, v⟩ := left
  obtain ⟨x', sp', pc', n', z', c', v'⟩ := right
  simp_all [Registers.getFlags]

theorem movk_fields (hRd : rd ≤ 30) (moves : List LaneMove) :
    ∀ inst ∈ moves.map (movk rd), inst.WellFormed ∧ inst.isHlt = false := by
  intro inst hInst
  obtain ⟨move, -, rfl⟩ := List.mem_map.mp hInst
  exact ⟨laneMove_wellFormed hRd (by decide) move, rfl⟩

/-- The moves that put lanes of a word in place. -/
def lanesOf (word : UInt64) (lanes : List (Fin 4)) : List LaneMove :=
  lanes.map fun k => ⟨k, laneOf word k⟩

/-- Among the moves of some lanes, the last one for a lane carries that lane of the word. -/
theorem find_lanesOf (word : UInt64) (lanes : List (Fin 4)) (k : Fin 4) :
    (k ∈ lanes → ((lanesOf word lanes).reverse.find? fun move => move.lane = k).map
      LaneMove.imm16 = some (laneOf word k)) ∧
    (k ∉ lanes → ((lanesOf word lanes).reverse.find? fun move => move.lane = k).map
      LaneMove.imm16 = none) := by
  cases hFind : (lanesOf word lanes).reverse.find? fun move => move.lane = k with
  | none =>
      have hAbsent : k ∉ lanes := by
        intro hMem
        have hOther := List.find?_eq_none.mp hFind ⟨k, laneOf word k⟩
          (List.mem_reverse.mpr (List.mem_map.mpr ⟨k, hMem, rfl⟩))
        simp at hOther
      exact ⟨fun hMem => (hAbsent hMem).elim, fun _ => rfl⟩
  | some move =>
      have hLane : move.lane = k := by simpa using List.find?_some hFind
      obtain ⟨l, hMem, rfl⟩ :=
        List.mem_map.mp (List.mem_reverse.mp (List.mem_of_find?_eq_some hFind))
      dsimp only at hLane
      rw [hLane] at hMem ⊢
      exact ⟨fun _ => rfl, fun hAbsent => (hAbsent hMem).elim⟩

theorem build_fields (hRd : rd ≤ 30) (word : UInt64) (first : Fin 4) (rest : List (Fin 4)) :
    ∀ inst ∈ movz rd ⟨first, laneOf word first⟩ :: (lanesOf word rest).map (movk rd),
      inst.WellFormed ∧ inst.isHlt = false := by
  intro inst hInst
  rcases List.mem_cons.mp hInst with rfl | hRest
  · exact ⟨laneMove_wellFormed hRd (by decide) _, rfl⟩
  · exact movk_fields hRd _ inst hRest

/-- One MOVZ and three MOVKs build any word, in any order of the lanes. -/
theorem build_value (hRd : rd ≤ 30) (regs : Registers) (word : UInt64) {first : Fin 4}
    {rest : List (Fin 4)} (hOrder : (first :: rest).Perm [0, 1, 2, 3]) :
    ((((lanesOf word rest).map (movk rd)).foldl effect
      (effect regs (movz rd ⟨first, laneOf word first⟩))).value rd) = word := by
  apply eq_of_laneOf
  intro k
  obtain ⟨hFound, hNone⟩ := find_lanesOf word rest k
  rw [laneOf_foldl_movk hRd, effect_movz, laneOf_put hRd]
  by_cases hRest : k ∈ rest
  · rw [hFound hRest]
    rfl
  · have hAll : ∀ l : Fin 4, l ∈ [0, 1, 2, 3] := by decide
    have hFirst : k = first :=
      (List.mem_cons.mp (hOrder.mem_iff.mpr (hAll k))).resolve_right hRest
    rw [hNone hRest, if_pos hFirst.symm, hFirst]
    rfl

/-- The laws of 64-bit wide moves to a register, from given registers on. -/
structure WideMoveLaw (regs : Registers) (mem : Memory) (halted : Bool) (rd : UInt8) : Prop where
  lanes : ∀ moves : List LaneMove, ∃ final,
    executeList regs mem halted (moves.map (movk rd)) = .ok (.ok (), final, mem, halted) ∧
    SameButFor rd regs final ∧
    ∀ k : Fin 4, laneOf (final.value rd) k =
      ((moves.reverse.find? fun move => move.lane = k).map LaneMove.imm16).getD
        (laneOf (regs.value rd) k)
  commutes : ∀ first second : LaneMove, first.lane ≠ second.lane →
    executeList regs mem halted [movk rd first, movk rd second] =
      executeList regs mem halted [movk rd second, movk rd first]
  builds : ∀ (word : UInt64) (first : Fin 4) (rest : List (Fin 4)),
    (first :: rest).Perm [0, 1, 2, 3] → ∃ final,
      executeList regs mem halted (movz rd ⟨first, laneOf word first⟩ ::
        (lanesOf word rest).map (movk rd)) = .ok (.ok (), final, mem, halted) ∧
      SameButFor rd regs final ∧ final.read rd = .ok word

/-- A sequence of MOVK writes each lane by itself, moves to different lanes commute,
and a MOVZ with the MOVKs of the other lanes builds any word in any order. Of two moves to
one lane the later one stays. -/
theorem wide_moves_by_lane (regs : Registers) (mem : Memory) (halted : Bool) (rd : UInt8)
    (hRd : rd ≤ 30) : WideMoveLaw regs mem halted rd where
  lanes moves := ⟨_, executeList_eq mem halted (movk_fields hRd moves) regs,
    sameButFor_foldl_movk moves (SameButFor.refl rd regs), laneOf_foldl_movk hRd moves regs⟩
  commutes := by
    intro first second hLanes
    have hForward := executeList_eq mem halted (movk_fields hRd [first, second]) regs
    have hBackward := executeList_eq mem halted (movk_fields hRd [second, first]) regs
    have hSame : ([first, second].map (movk rd)).foldl effect regs =
        ([second, first].map (movk rd)).foldl effect regs := by
      have hRefl := SameButFor.refl rd regs
      refine eq_of_sameButFor (sameButFor_foldl_movk _ hRefl) (sameButFor_foldl_movk _ hRefl)
        (eq_of_laneOf fun k => ?_)
      rw [laneOf_foldl_movk hRd, laneOf_foldl_movk hRd]
      by_cases hFirst : first.lane = k
      · have hSecond : second.lane ≠ k := fun hEq => hLanes (hFirst.trans hEq.symm)
        simp [hFirst, hSecond]
      · by_cases hSecond : second.lane = k
        · simp [hFirst, hSecond]
        · simp [hFirst, hSecond]
    exact hForward.trans (hSame ▸ hBackward.symm)
  builds := by
    intro word first rest hOrder
    refine ⟨_, executeList_eq mem halted (build_fields hRd word first rest) regs, ?_, ?_⟩
    · rw [List.foldl_cons, effect_movz]
      exact sameButFor_foldl_movk _ ((SameButFor.refl rd regs).put _)
    · rw [List.foldl_cons, Registers.read_eq (Registers.le_of_le_thirty hRd),
        build_value hRd regs word hOrder]

theorem wide_moves_by_lane_x0 :
    WideMoveLaw Registers.new (Memory.new 0) false 0 :=
  wide_moves_by_lane Registers.new (Memory.new 0) false 0 (by decide)

end Moves

end Simulator
