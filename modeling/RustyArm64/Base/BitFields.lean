import Mathlib.Algebra.Group.Nat.Defs
import Mathlib.Tactic.Ring

/-! Bit fields packed into a number, most significant field first, and words
recognised by an ordered list of tests. -/
namespace BitFields

structure Field where
  width : Nat
  content : BitVec width

def bit (b : Bool) : Field := ⟨1, BitVec.ofBool b⟩

def width : List Field → Nat
  | [] => 0
  | field :: rest => field.width + width rest

def pack : List Field → Nat
  | [] => 0
  | field :: rest => field.content.toNat * 2 ^ width rest + pack rest

/-- The fields as one machine word. -/
def word (fields : List Field) : UInt32 := UInt32.ofNat (pack fields)

theorem width_append (high low : List Field) : width (high ++ low) = width high + width low := by
  induction high with
  | nil => simp [width]
  | cons field rest ih =>
      simp only [List.cons_append, width, ih]
      omega

/-- The low fields fill the low bits, so packing is positional notation with mixed radix. -/
theorem pack_append (high low : List Field) :
    pack (high ++ low) = pack high * 2 ^ width low + pack low := by
  induction high with
  | nil => simp [pack]
  | cons field rest ih =>
      simp only [List.cons_append, pack, ih, width_append, Nat.pow_add]
      ring

/-- Packed fields never reach past their own width. -/
theorem pack_lt (fields : List Field) : pack fields < 2 ^ width fields := by
  induction fields with
  | nil => exact Nat.one_pos
  | cons field rest ih =>
      have hField := field.content.isLt
      calc pack (field :: rest)
          < field.content.toNat * 2 ^ width rest + 2 ^ width rest := Nat.add_lt_add_left ih _
        _ = (field.content.toNat + 1) * 2 ^ width rest := by ring
        _ ≤ 2 ^ field.width * 2 ^ width rest := Nat.mul_le_mul_right _ hField
        _ = 2 ^ width (field :: rest) := by rw [width, Nat.pow_add]

@[simp] theorem pack_singleton (field : Field) : pack [field] = field.content.toNat := by
  simp [pack, width]

@[simp] theorem bit_width (b : Bool) : (bit b).width = 1 := rfl

@[simp] theorem bit_content (b : Bool) : (bit b).content.toNat = b.toNat := by
  cases b <;> rfl

/-- Adjacent fields are cut out by a division and a remainder, whatever stands
above and below them. -/
theorem pack_div_mod (high middle low : List Field) :
    pack (high ++ middle ++ low) / 2 ^ width low % 2 ^ width middle = pack middle := by
  have hLow : pack low / 2 ^ width low = 0 := Nat.div_eq_of_lt (pack_lt low)
  rw [pack_append, pack_append, Nat.add_comm, Nat.add_mul_div_right _ _ (Nat.two_pow_pos _),
    hLow, Nat.zero_add, Nat.add_comm, Nat.add_mul_mod_self_right, Nat.mod_eq_of_lt (pack_lt middle)]

theorem word_toNat {fields : List Field} (hWidth : width fields = 32) :
    (word fields).toNat = pack fields := by
  have hLt := pack_lt fields
  rw [hWidth] at hLt
  rw [word, UInt32.toNat_ofNat', Nat.mod_eq_of_lt hLt]

end BitFields

/-- Two orders of the same tests find the same answer if no two tests give
different ones. -/
theorem List.Perm.findSome?_eq {α β : Type} {f : α → Option β} {tests tests' : List α}
    (hPerm : tests.Perm tests')
    (hAgree : ∀ a ∈ tests, ∀ b ∈ tests, ∀ x y, f a = some x → f b = some y → x = y) :
    tests.findSome? f = tests'.findSome? f := by
  cases hFirst : tests'.findSome? f with
  | none =>
      rw [List.findSome?_eq_none_iff] at hFirst ⊢
      exact fun a ha => hFirst a (hPerm.mem_iff.mp ha)
  | some answer =>
      obtain ⟨a, ha, hAnswer⟩ := List.exists_of_findSome?_eq_some hFirst
      cases hSecond : tests.findSome? f with
      | none =>
          rw [List.findSome?_eq_none_iff] at hSecond
          exact absurd (hSecond a (hPerm.mem_iff.mpr ha)) (by simp [hAnswer])
      | some answer' =>
          obtain ⟨b, hb, hAnswer'⟩ := List.exists_of_findSome?_eq_some hSecond
          rw [hAgree b hb a (hPerm.mem_iff.mpr ha) answer' answer hAnswer' hAnswer]

/-- Two orders of the same list find the same element if at most one passes. -/
theorem List.Perm.find?_eq {α : Type} {p : α → Bool} {items items' : List α}
    (hPerm : items.Perm items')
    (hUnique : ∀ a ∈ items, ∀ b ∈ items, p a = true → p b = true → a = b) :
    items.find? p = items'.find? p := by
  rw [List.find?_eq_findSome?_guard, List.find?_eq_findSome?_guard]
  refine hPerm.findSome?_eq fun a ha b hb x y hx hy => ?_
  obtain ⟨rfl, hPa⟩ := Option.guard_eq_some_iff.mp hx
  obtain ⟨rfl, hPb⟩ := Option.guard_eq_some_iff.mp hy
  exact hUnique a ha b hb hPa hPb
