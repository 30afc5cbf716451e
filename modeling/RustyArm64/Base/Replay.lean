import Mathlib.Data.List.Induction

/-! Machines that move by one input at a time and may refuse an input. A run is
replayed from the list of its inputs, so that everything a run meets (its
history, its states, the step that came last) is a function of that list. -/
namespace Replay

universe u v
variable {State : Type u} {Input : Type v} (step : State → Input → Option State)

/-- Apply a list of inputs, the first one first. A refused input ends the run
without a state. -/
def replay : State → List Input → Option State
  | state, [] => some state
  | state, input :: rest =>
      match step state input with
      | none => none
      | some next => replay next rest

@[simp] theorem replay_nil (start : State) : replay step start [] = some start := rfl

/-- A run is a run of its beginning followed by one of the rest. -/
theorem replay_append (start : State) (past later : List Input) :
    replay step start (past ++ later) =
      (replay step start past).bind (fun state => replay step state later) := by
  induction past generalizing start with
  | nil => rfl
  | cons input rest ih =>
      simp only [List.cons_append, replay]
      cases step start input with
      | none => rfl
      | some next => exact ih next

theorem replay_snoc (start : State) (past : List Input) (input : Input) :
    replay step start (past ++ [input]) =
      (replay step start past).bind (fun state => step state input) := by
  rw [replay_append]
  congr 1
  funext state
  simp only [replay]
  cases step state input <;> rfl

variable {step}

/-- The last step of a run, with the state before it. -/
theorem replay_snoc_eq_some {start finish : State} {past : List Input} {input : Input} :
    replay step start (past ++ [input]) = some finish ↔
      ∃ state, replay step start past = some state ∧ step state input = some finish := by
  rw [replay_snoc, Option.bind_eq_some_iff]

/-- A run is empty or has a last step. -/
theorem replay_cases {start finish : State} {inputs : List Input}
    (run : replay step start inputs = some finish) :
    (inputs = [] ∧ finish = start) ∨ ∃ past input state, inputs = past ++ [input] ∧
      replay step start past = some state ∧ step state input = some finish := by
  rcases List.eq_nil_or_concat inputs with rfl | ⟨past, input, rfl⟩
  · cases run
    exact Or.inl ⟨rfl, rfl⟩
  · rw [List.concat_eq_append] at run ⊢
    obtain ⟨state, prior, last⟩ := replay_snoc_eq_some.mp run
    exact Or.inr ⟨past, input, state, rfl, prior, last⟩

/-- Carry a relation between the inputs so far and the state reached through
every run. The step case may use that the state before it was reached. -/
theorem replay_history (holds : List Input → State → Prop) {start : State}
    (hStart : holds [] start)
    (hStep : ∀ past state input next, replay step start past = some state →
      holds past state → step state input = some next → holds (past ++ [input]) next)
    {inputs : List Input} {finish : State} (run : replay step start inputs = some finish) :
    holds inputs finish := by
  induction inputs using List.reverseRecOn generalizing finish with
  | nil =>
      cases run
      exact hStart
  | append_singleton past input ih =>
      obtain ⟨state, prior, last⟩ := replay_snoc_eq_some.mp run
      exact hStep past state input finish prior (ih prior) last

/-- Every prefix of a run is a run. -/
theorem replay_prefix {start finish : State} {past later : List Input}
    (run : replay step start (past ++ later) = some finish) :
    ∃ state, replay step start past = some state ∧ replay step state later = some finish := by
  rw [replay_append, Option.bind_eq_some_iff] at run
  exact run

section Conditions

variable (holds : State → Input → Prop)

/-- Every step of the run meets a condition on its input and the state before. -/
def Along (step : State → Input → Option State) (holds : State → Input → Prop) :
    State → List Input → Prop
  | _, [] => True
  | state, input :: rest =>
      holds state input ∧ ∀ next ∈ step state input, Along step holds next rest

instance decidableAlong [∀ state input, Decidable (holds state input)] :
    (start : State) → (inputs : List Input) → Decidable (Along step holds start inputs)
  | _, [] => .isTrue trivial
  | state, input :: rest =>
      have : DecidablePred (Along step holds · rest) := fun next => decidableAlong next rest
      inferInstanceAs (Decidable (holds state input ∧ ∀ next ∈ step state input, _))

theorem Along.and {holds holds' : State → Input → Prop} {start : State} {inputs : List Input}
    (h : Along step holds start inputs) (h' : Along step holds' start inputs) :
    Along step (fun state input => holds state input ∧ holds' state input) start inputs := by
  induction inputs generalizing start with
  | nil => trivial
  | cons input rest ih =>
      exact ⟨⟨h.1, h'.1⟩, fun next hNext => ih (h.2 next hNext) (h'.2 next hNext)⟩

/-- A condition on the inputs alone holds along any run. -/
theorem along_of_forall (start : State) {inputs : List Input}
    (h : ∀ input ∈ inputs, ∀ state, holds state input) : Along step holds start inputs := by
  induction inputs generalizing start with
  | nil => trivial
  | cons input rest ih =>
      exact ⟨h input List.mem_cons_self start, fun next _ =>
        ih next fun other hOther => h other (List.mem_cons_of_mem input hOther)⟩

/-- The condition may be checked part by part. -/
theorem along_append {start state : State} {past : List Input}
    (run : replay step start past = some state) (later : List Input) :
    Along step holds start (past ++ later) ↔
      Along step holds start past ∧ Along step holds state later := by
  induction past generalizing start with
  | nil =>
      cases run
      simp [Along]
  | cons first rest ih =>
      simp only [replay] at run
      cases hFirst : step start first with
      | none => simp [hFirst] at run
      | some next =>
          simp only [hFirst] at run
          simp only [List.cons_append, Along, hFirst, Option.mem_def, Option.some.injEq,
            forall_eq', ih run, and_assoc]

theorem along_snoc {start state : State} {past : List Input} {input : Input}
    (run : replay step start past = some state) :
    Along step holds start (past ++ [input]) ↔
      Along step holds start past ∧ holds state input := by
  rw [along_append holds run]
  simp [Along]

/-- A law of all runs whose steps meet a condition. -/
theorem replay_along (law : List Input → State → Prop) {start : State}
    (hStart : law [] start)
    (hStep : ∀ past state input next, replay step start past = some state → law past state →
      holds state input → step state input = some next → law (past ++ [input]) next)
    {inputs : List Input} {finish : State} (run : replay step start inputs = some finish)
    (along : Along step holds start inputs) : law inputs finish := by
  refine replay_history (fun inputs finish => Along step holds start inputs → law inputs finish)
    (fun _ => hStart) ?_ run along
  intro past state input next hPast hLaw hNext hAlong
  obtain ⟨hPrior, hHolds⟩ := (along_snoc holds hPast).mp hAlong
  exact hStep past state input next hPast (hLaw hPrior) hHolds hNext

end Conditions

section Total

/-- Where every input is taken, a run is a fold. -/
theorem replay_total (next : State → Input → State) (start : State) (inputs : List Input) :
    replay (fun state input => some (next state input)) start inputs =
      some (inputs.foldl next start) := by
  induction inputs generalizing start with
  | nil => rfl
  | cons input rest ih => exact ih (next start input)

end Total

section Recording

universe w
variable {Seen : Type w} (note : Seen → State → Input → State → Seen)

/-- What an observer of a run has noted at its end. Each step is shown to it with
the states before and after. -/
def record (step : State → Input → Option State) (note : Seen → State → Input → State → Seen) :
    Seen → State → List Input → Seen
  | seen, _, [] => seen
  | seen, state, input :: rest =>
      match step state input with
      | none => seen
      | some next => record step note (note seen state input next) next rest

/-- The note on the last step of a run. -/
theorem record_snoc {seen : Seen} {start state finish : State} {past : List Input} {input : Input}
    (run : replay step start past = some state) (last : step state input = some finish) :
    record step note seen start (past ++ [input]) =
      note (record step note seen start past) state input finish := by
  induction past generalizing seen start with
  | nil =>
      cases run
      simp only [List.nil_append, record, last]
  | cons first rest ih =>
      simp only [replay] at run
      cases hFirst : step start first with
      | none => simp [hFirst] at run
      | some next =>
          simp only [hFirst] at run
          simp only [List.cons_append, record, hFirst, ih run]

end Recording

section Counting

variable {count : State → Nat}

/-- The step at index `k` of the run raises the count from `i`. -/
def Crosses (step : State → Input → Option State) (count : State → Nat) (start : State)
    (inputs : List Input) (i k : Nat) : Prop :=
  ∃ state next, replay step start (inputs.take k) = some state ∧
    replay step start (inputs.take (k + 1)) = some next ∧ count state = i ∧ count next = i + 1

theorem count_le_of_replay
    (hCount : ∀ state input next, step state input = some next → count state ≤ count next)
    {start finish : State} {inputs : List Input} (run : replay step start inputs = some finish) :
    count start ≤ count finish := by
  refine replay_history (fun _ state => count start ≤ count state) (Nat.le_refl _) ?_ run
  intro past state input next _ hPast hStep
  exact Nat.le_trans hPast (hCount state input next hStep)

theorem count_le_of_take
    (hCount : ∀ state input next, step state input = some next → count state ≤ count next)
    {start early late : State} {inputs : List Input} {k l : Nat} (hOrder : k ≤ l)
    (hEarly : replay step start (inputs.take k) = some early)
    (hLate : replay step start (inputs.take l) = some late) : count early ≤ count late := by
  have hSplit : inputs.take l = inputs.take k ++ (inputs.take l).drop k := by
    conv_lhs =>
      rw [← List.take_append_drop k (inputs.take l), List.take_take, Nat.min_eq_left hOrder]
  rw [hSplit] at hLate
  obtain ⟨middle, hMiddle, hRest⟩ := replay_prefix hLate
  rw [hEarly] at hMiddle
  cases hMiddle
  exact count_le_of_replay hCount hRest

/-- A crossing of the first inputs is one of all inputs. -/
theorem Crosses.append {start : State} {past later : List Input} {i k : Nat}
    (h : Crosses step count start past i k) (hInside : k < past.length) :
    Crosses step count start (past ++ later) i k := by
  obtain ⟨state, next, hEarly, hNext, hFrom, hTo⟩ := h
  refine ⟨state, next, ?_, ?_, hFrom, hTo⟩
  · rwa [List.take_append_of_le_length (by omega)]
  · rwa [List.take_append_of_le_length (by omega)]

/-- There is a step at the index of a crossing. -/
theorem Crosses.lt_length {start : State} {inputs : List Input} {i k : Nat}
    (h : Crosses step count start inputs i k) : k < inputs.length := by
  obtain ⟨state, next, hEarly, hNext, hFrom, hTo⟩ := h
  by_contra hOutside
  rw [List.take_of_length_le (by omega)] at hEarly hNext
  rw [hEarly] at hNext
  cases hNext
  omega

/-- A count that moves by at most one passes every value between its ends. -/
theorem exists_crossing
    (hCount : ∀ state input next, step state input = some next →
      count next = count state ∨ count next = count state + 1)
    {start finish : State} {inputs : List Input} (run : replay step start inputs = some finish)
    {i : Nat} (hLow : count start ≤ i) (hHigh : i < count finish) :
    ∃ k, Crosses step count start inputs i k := by
  induction inputs using List.reverseRecOn generalizing finish with
  | nil =>
      cases run
      omega
  | append_singleton past input ih =>
      obtain ⟨state, prior, last⟩ := replay_snoc_eq_some.mp run
      by_cases hBefore : i < count state
      · obtain ⟨k, hCrosses⟩ := ih prior hBefore
        exact ⟨k, hCrosses.append hCrosses.lt_length⟩
      · -- The last step is the crossing.
        have hFinish := hCount state input finish last
        refine ⟨past.length, state, finish, ?_, ?_, by omega, by omega⟩
        · rwa [List.take_append_of_le_length (Nat.le_refl _), List.take_length]
        · rwa [List.take_of_length_le (by simp)]

/-- A count that never drops passes a value once. -/
theorem Crosses.not_lt
    (hCount : ∀ state input next, step state input = some next → count state ≤ count next)
    {start : State} {inputs : List Input} {i k l : Nat}
    (first : Crosses step count start inputs i k) (second : Crosses step count start inputs i l) :
    ¬k < l := by
  intro hLess
  obtain ⟨_, next, -, hNext, -, hTo⟩ := first
  obtain ⟨state, _, hState, -, hFrom, -⟩ := second
  have hLe := count_le_of_take hCount (Nat.succ_le_of_lt hLess) hNext hState
  omega

/-- A count that starts low and grows by at most one in a step passes every value
below its final one, and passes it once. -/
theorem exists_unique_crossing
    (hCount : ∀ state input next, step state input = some next →
      count next = count state ∨ count next = count state + 1)
    {start finish : State} {inputs : List Input} (run : replay step start inputs = some finish)
    {i : Nat} (hLow : count start ≤ i) (hHigh : i < count finish) :
    ∃! k, Crosses step count start inputs i k := by
  have hMono : ∀ state input next, step state input = some next → count state ≤ count next := by
    intro state input next hStep
    rcases hCount state input next hStep with hSame | hMore
    · omega
    · omega
  obtain ⟨k, hCrosses⟩ := exists_crossing hCount run hLow hHigh
  refine ⟨k, hCrosses, ?_⟩
  intro l hOther
  exact Nat.le_antisymm (Nat.not_lt.mp (hCrosses.not_lt hMono hOther))
    (Nat.not_lt.mp (hOther.not_lt hMono hCrosses))

end Counting

section Finishing

theorem replay_cons {state next : State} {input : Input} (hStep : step state input = some next)
    (rest : List Input) : replay step state (input :: rest) = replay step next rest := by
  rw [replay, hStep]

theorem Along.cons {holds : State → Input → Prop} {state next : State} {input : Input}
    {rest : List Input} (hStep : step state input = some next) (hHolds : holds state input)
    (hRest : Along step holds next rest) : Along step holds state (input :: rest) := by
  refine ⟨hHolds, fun other hOther => ?_⟩
  rw [hStep] at hOther
  cases hOther
  exact hRest

/-- Where every good state that is not final has a good next one of a smaller measure, a
final state is in reach within that many inputs. -/
theorem exists_finish {holds : State → Input → Prop} {good : State → Prop} (final : State → Prop)
    (measure : State → Nat)
    (hNext : ∀ state, good state → ¬final state → ∃ input next, holds state input ∧
      step state input = some next ∧ good next ∧ measure next < measure state)
    {state : State} (hGood : good state) :
    ∃ inputs finish, replay step state inputs = some finish ∧ Along step holds state inputs ∧
      inputs.length ≤ measure state ∧ good finish ∧ final finish := by
  induction hMeasure : measure state using Nat.strongRecOn generalizing state with
  | ind bound ih =>
      by_cases hFinal : final state
      · exact ⟨[], state, rfl, trivial, Nat.zero_le _, hGood, hFinal⟩
      · obtain ⟨input, next, hHolds, hStep, hGoodNext, hLess⟩ := hNext state hGood hFinal
        obtain ⟨inputs, finish, hRun, hAlong, hLength, hEnd⟩ :=
          ih (measure next) (hMeasure ▸ hLess) hGoodNext rfl
        refine ⟨input :: inputs, finish, ?_, hAlong.cons hStep hHolds, ?_, hEnd⟩
        · rw [replay_cons hStep, hRun]
        · rw [List.length_cons]
          omega

end Finishing

end Replay
