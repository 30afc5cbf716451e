import Mathlib.Data.List.Basic

/-! Overwriting a range of a list in place. The length never changes, so a
fixed-size store can carry its size through any sequence of writes. Entries
that would fall outside the list are dropped. -/
namespace List

variable {α : Type*}

/-- Replace the entries at `start, start + 1, ...` by those of `values`. -/
def overwrite (store : List α) (start : Nat) (values : List α) : List α :=
  store.mapIdx fun i old => if start ≤ i then values.getD (i - start) old else old

@[simp] theorem length_overwrite (store : List α) (start : Nat) (values : List α) :
    (store.overwrite start values).length = store.length := by
  simp [overwrite]

/-- Every element of an overwritten list: new inside the range, old outside. The list keeps
its length, and what would lie past the end is dropped. -/
theorem getElem?_overwrite (store : List α) (start : Nat) (values : List α) (i : Nat) :
    (store.overwrite start values)[i]? =
      store[i]?.map (fun old => if start ≤ i then values.getD (i - start) old else old) := by
  simp [overwrite]

/-- Inside the written range the new entry is read back. -/
theorem getElem?_overwrite_inside {store values : List α} {start i : Nat}
    (hFits : start + values.length ≤ store.length)
    (hStart : start ≤ i) (hEnd : i < start + values.length) :
    (store.overwrite start values)[i]? = values[i - start]? := by
  have hStore : i < store.length := by omega
  have hValue : i - start < values.length := by omega
  rw [getElem?_overwrite, getElem?_eq_getElem hStore, getElem?_eq_getElem hValue]
  simp [hStart, hValue]

/-- Outside the written range nothing changes. -/
theorem getElem?_overwrite_outside {store values : List α} {start i : Nat}
    (hOutside : i < start ∨ start + values.length ≤ i) :
    (store.overwrite start values)[i]? = store[i]? := by
  rw [getElem?_overwrite]
  by_cases hStart : start ≤ i
  · have hValue : values.length ≤ i - start := by omega
    simp [hStart, hValue]
  · simp [hStart]

@[simp] theorem overwrite_nil (store : List α) (start : Nat) :
    store.overwrite start [] = store := by
  apply List.ext_getElem?
  intro i
  exact getElem?_overwrite_outside (by simp only [length_nil]; omega)

/-- What a write, given by its start and its values, puts at an index. -/
def entryOf (write : Nat × List α) (i : Nat) : Option α :=
  if write.1 ≤ i then write.2[i - write.1]? else none

theorem getElem?_overwrite_entry (store : List α) (write : Nat × List α) (i : Nat) :
    (store.overwrite write.1 write.2)[i]? = store[i]?.map (entryOf write i).getD := by
  rw [getElem?_overwrite]
  congr 1
  funext old
  unfold entryOf
  split
  · rw [getD_eq_getElem?_getD]
  · rfl

/-- What the last of the writes that reach an index puts there. -/
def lastWrite : List (Nat × List α) → Nat → Option α
  | [], _ => none
  | write :: later, i => (lastWrite later i).or (entryOf write i)

theorem length_foldl_overwrite (writes : List (Nat × List α)) (store : List α) :
    (writes.foldl (fun old write => old.overwrite write.1 write.2) store).length =
      store.length := by
  induction writes generalizing store with
  | nil => rfl
  | cons write later ih => rw [foldl_cons, ih, length_overwrite]

/-- A store remembers of a sequence of writes just the last one at each index. -/
theorem getElem?_foldl_overwrite (writes : List (Nat × List α)) (store : List α) (i : Nat) :
    (writes.foldl (fun old write => old.overwrite write.1 write.2) store)[i]? =
      store[i]?.map (lastWrite writes i).getD := by
  induction writes generalizing store with
  | nil =>
      rw [foldl_nil, lastWrite]
      cases store[i]? <;> rfl
  | cons write later ih =>
      rw [foldl_cons, ih, getElem?_overwrite_entry, Option.map_map]
      congr 1
      funext old
      rw [Function.comp_apply, lastWrite]
      cases lastWrite later i <;> rfl

end List
