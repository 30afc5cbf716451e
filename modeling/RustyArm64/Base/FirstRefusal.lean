import Mathlib.Data.List.Forall2

/-! Going through a list with a check that may refuse. The first refusal is the result, and
what comes behind it is not looked at. -/
namespace FirstRefusal

variable {Item Result Refusal : Type*} {check : Item → Except Refusal Result}

theorem mapM_cons_eq_ok {item : Item} {rest : List Item} {results : List Result} :
    (item :: rest).mapM check = .ok results ↔
      ∃ first later, check item = .ok first ∧ rest.mapM check = .ok later ∧
        results = first :: later := by
  rw [List.mapM_cons]
  rcases check item with refusal | first
  · simp [bind, Except.bind]
  · rcases rest.mapM check with refusal | later
    · simp [bind, Except.bind]
    · simp [bind, Except.bind, pure, Except.pure, eq_comm]

/-- Every item has its result. -/
theorem mapM_eq_ok {items : List Item} {results : List Result} :
    items.mapM check = .ok results ↔
      List.Forall₂ (fun item result => check item = .ok result) items results := by
  induction items generalizing results with
  | nil => simp [pure, Except.pure, eq_comm]
  | cons item rest ih =>
      rw [mapM_cons_eq_ok, List.forall₂_cons_left_iff]
      simp only [ih]

theorem exists_mapM_eq_ok {items : List Item} :
    (∃ results, items.mapM check = .ok results) ↔
      ∀ item ∈ items, ∃ result, check item = .ok result := by
  induction items with
  | nil => simp [pure, Except.pure]
  | cons item rest ih =>
      rw [List.forall_mem_cons, ← ih]
      simp only [mapM_cons_eq_ok]
      constructor
      · rintro ⟨results, first, later, hFirst, hLater, -⟩
        exact ⟨⟨first, hFirst⟩, later, hLater⟩
      · rintro ⟨⟨first, hFirst⟩, later, hLater⟩
        exact ⟨first :: later, first, later, hFirst, hLater, rfl⟩

/-- A refusal is that of the first item that is refused. -/
theorem mapM_eq_error {items : List Item} {refusal : Refusal} :
    items.mapM check = .error refusal ↔
      ∃ before item after, items = before ++ item :: after ∧
        (∀ other ∈ before, ∃ result, check other = .ok result) ∧ check item = .error refusal := by
  induction items with
  | nil => simp [pure, Except.pure]
  | cons item rest ih =>
      rw [List.mapM_cons]
      cases hItem : check item with
      | error first =>
          constructor
          · intro hFirst
            cases hFirst
            exact ⟨[], item, rest, rfl, fun other hOther => (nomatch hOther), hItem⟩
          · rintro ⟨before, last, after, hSplit, hBefore, hLast⟩
            cases before with
            | nil =>
                obtain ⟨rfl, -⟩ := List.cons.inj hSplit
                rw [hItem] at hLast
                cases hLast
                rfl
            | cons other before =>
                obtain ⟨rfl, -⟩ := List.cons.inj hSplit
                obtain ⟨result, hResult⟩ := hBefore _ List.mem_cons_self
                rw [hItem] at hResult
                cases hResult
      | ok result =>
          have hRest : (do let later ← rest.mapM check; pure (result :: later) :
              Except Refusal (List Result)) = .error refusal ↔
              rest.mapM check = .error refusal := by
            rcases rest.mapM check with other | later
            · simp [bind, Except.bind]
            · simp [bind, Except.bind, pure, Except.pure]
          refine hRest.trans (ih.trans ?_)
          constructor
          · rintro ⟨before, last, after, rfl, hBefore, hLast⟩
            exact ⟨item :: before, last, after, rfl,
              List.forall_mem_cons.mpr ⟨⟨result, hItem⟩, hBefore⟩, hLast⟩
          · rintro ⟨before, last, after, hSplit, hBefore, hLast⟩
            cases before with
            | nil =>
                obtain ⟨rfl, -⟩ := List.cons.inj hSplit
                rw [hItem] at hLast
                cases hLast
            | cons other before =>
                obtain ⟨rfl, rfl⟩ := List.cons.inj hSplit
                exact ⟨before, last, after, rfl, (List.forall_mem_cons.mp hBefore).2, hLast⟩

end FirstRefusal
