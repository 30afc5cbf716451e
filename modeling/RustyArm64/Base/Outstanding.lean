import Mathlib.Data.List.Basic

/-! Logs whose items open and close keys: requests and their answers, calls and
their returns. A key that an item opens is outstanding until a later item closes
it. -/
namespace Outstanding

variable {Item Key : Type*} [DecidableEq Key] (opens closes : Item → List Key)

/-- The keys that are outstanding at the end of the log, in the order of opening. -/
def pending : List Item → List Key
  | [] => []
  | item :: rest =>
      (opens item).filter (fun key => key ∉ rest.flatMap closes) ++ pending rest

variable {opens closes}

/-- What is open after a longer history: what was open and is not closed later, and what the
later part leaves open itself. -/
theorem pending_append (past later : List Item) :
    pending opens closes (past ++ later) =
      (pending opens closes past).filter (fun key => key ∉ later.flatMap closes) ++
        pending opens closes later := by
  induction past with
  | nil => rfl
  | cons item rest ih =>
      simp only [List.cons_append, pending, ih, List.filter_append, List.filter_filter,
        List.flatMap_append, List.mem_append, not_or, Bool.decide_and, List.append_assoc,
        Bool.and_comm]

/-- An item that closes nothing adds what it opens. -/
theorem pending_snoc {past : List Item} {item : Item} (hCloses : closes item = []) :
    pending opens closes (past ++ [item]) = pending opens closes past ++ opens item := by
  rw [pending_append]
  simp [pending, hCloses]

/-- Items that open nothing leave what they do not close. -/
theorem pending_append_of_opens {past later : List Item}
    (hOpens : ∀ item ∈ later, opens item = []) :
    pending opens closes (past ++ later) =
      (pending opens closes past).filter (fun key => key ∉ later.flatMap closes) := by
  have hNone : pending opens closes later = [] := by
    induction later with
    | nil => rfl
    | cons item rest ih =>
        rw [pending, hOpens item List.mem_cons_self, List.filter_nil, List.nil_append]
        exact ih fun other hOther => hOpens other (List.mem_cons_of_mem item hOther)
  rw [pending_append, hNone, List.append_nil]

theorem mem_opens_of_mem_pending {items : List Item} {key : Key}
    (h : key ∈ pending opens closes items) : ∃ item ∈ items, key ∈ opens item := by
  induction items with
  | nil => cases h
  | cons item rest ih =>
      rcases List.mem_append.mp h with hHead | hRest
      · exact ⟨item, List.mem_cons_self, (List.mem_filter.mp hHead).1⟩
      · obtain ⟨other, hOther, hKey⟩ := ih hRest
        exact ⟨other, List.mem_cons_of_mem item hOther, hKey⟩

/-- Nothing is outstanding exactly if every opened key is closed further on. -/
theorem pending_eq_nil_iff {items : List Item} : pending opens closes items = [] ↔
    ∀ before item after, items = before ++ item :: after →
      ∀ key ∈ opens item, ∃ other ∈ after, key ∈ closes other := by
  induction items with
  | nil => simp [pending]
  | cons first rest ih =>
      rw [pending, List.append_eq_nil_iff, List.filter_eq_nil_iff, ih]
      constructor
      · rintro ⟨hFirst, hRest⟩ before item after hSplit key hKey
        cases before with
        | nil =>
            cases hSplit
            simpa using hFirst key hKey
        | cons head others =>
            cases hSplit
            exact hRest others item after rfl key hKey
      · intro hAll
        refine ⟨fun key hKey => ?_, fun before item after hSplit => ?_⟩
        · simpa using hAll [] first rest rfl key hKey
        · exact hAll (first :: before) item after (by rw [hSplit]; rfl)

end Outstanding
