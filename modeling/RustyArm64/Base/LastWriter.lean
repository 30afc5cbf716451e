import Mathlib.Data.List.Induction

/-! Sequences of operations of which only some write a given location. What the
location holds at the end depends on the last of these alone. -/
namespace LastWriter

variable {State Op Value : Type*} {step : State → Op → State} (get : State → Value)
  {writes : Op → Bool}

/-- An observation survives operations that do not write it. -/
theorem foldl_kept (hFrame : ∀ state op, writes op = false → get (step state op) = get state)
    {ops : List Op} (hNone : ∀ op ∈ ops, writes op = false) (state : State) :
    get (ops.foldl step state) = get state := by
  induction ops generalizing state with
  | nil => rfl
  | cons op rest ih =>
      rw [List.foldl_cons, ih fun other hOther => hNone other (List.mem_cons_of_mem _ hOther)]
      exact hFrame state op (hNone op List.mem_cons_self)

theorem foldl_last (hFrame : ∀ state op, writes op = false → get (step state op) = get state)
    (before : List Op) (op : Op) {after : List Op} (hAfter : ∀ op ∈ after, writes op = false)
    (state : State) :
    get ((before ++ op :: after).foldl step state) = get (step (before.foldl step state) op) := by
  rw [List.foldl_append, List.foldl_cons, foldl_kept get hFrame hAfter]

/-- A sequence has no writer, or it splits at the last one. -/
theorem none_or_last (writes : Op → Bool) (ops : List Op) :
    (∀ op ∈ ops, writes op = false) ∨ ∃ before op after, ops = before ++ op :: after ∧
      writes op = true ∧ ∀ op ∈ after, writes op = false := by
  induction ops using List.reverseRecOn with
  | nil => exact Or.inl fun op hOp => nomatch hOp
  | append_singleton past op ih =>
      cases hWrites : writes op with
      | true => exact Or.inr ⟨past, op, [], rfl, hWrites, fun op hOp => nomatch hOp⟩
      | false =>
          rcases ih with hNone | ⟨before, last, after, rfl, hLast, hAfter⟩
          · refine Or.inl fun other hOther => ?_
            rcases List.mem_append.mp hOther with hPast | hOp
            · exact hNone other hPast
            · rwa [List.mem_singleton.mp hOp]
          · refine Or.inr ⟨before, last, after ++ [op], by simp, hLast, fun other hOther => ?_⟩
            rcases List.mem_append.mp hOther with hPast | hOp
            · exact hAfter other hPast
            · rwa [List.mem_singleton.mp hOp]

/-- When every writer leaves a value of its own, the location holds that of the
last one. -/
theorem foldl_eq_find? {value : Op → Value}
    (hWrite : ∀ state op, writes op = true → get (step state op) = value op)
    (hFrame : ∀ state op, writes op = false → get (step state op) = get state)
    (ops : List Op) (state : State) :
    get (ops.foldl step state) = ((ops.reverse.find? writes).map value).getD (get state) := by
  rcases none_or_last writes ops with hNone | ⟨before, op, after, rfl, hWrites, hAfter⟩
  · have hFind : ops.reverse.find? writes = none := by
      simpa using hNone
    rw [foldl_kept get hFrame hNone, hFind]
    rfl
  · have hSkip : after.reverse.find? writes = none := by
      simpa using hAfter
    have hFind : (before ++ op :: after).reverse.find? writes = some op := by
      rw [List.reverse_append, List.reverse_cons, List.append_assoc, List.find?_append, hSkip,
        Option.none_or, List.singleton_append, List.find?_cons_of_pos hWrites]
    rw [foldl_last get hFrame before op hAfter, hWrite _ op hWrites, hFind]
    rfl

end LastWriter
