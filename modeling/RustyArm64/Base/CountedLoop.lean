import Mathlib.Order.Basic

/-! Unbounded loops whose body either goes on from a new state or leaves with
a result. Calls of the body are counted, and a measure that drops on every
`again` turns the loop into a total function. No fuel is part of the result. -/
namespace CountedLoop

variable {State Result : Type}

/-- One call of a loop body. -/
inductive Turn (State Result : Type) where
  | again (state : State)
  | leave (result : Result)

/-- The loop started in a state calls its body exactly `calls` times and
leaves with the result. A loop that never leaves satisfies no instance. -/
inductive Loops (body : State → Turn State Result) : State → Nat → Result → Prop where
  | leave {state : State} {result : Result}
      (last : body state = .leave result) : Loops body state 1 result
  | again {state middle : State} {calls : Nat} {result : Result}
      (first : body state = .again middle) (rest : Loops body middle calls result) :
      Loops body state (calls + 1) result

/-- The number of calls and the result are functions of the starting state. -/
theorem Loops.unique {body : State → Turn State Result} {state : State}
    {calls calls' : Nat} {result result' : Result}
    (left : Loops body state calls result) (right : Loops body state calls' result') :
    calls = calls' ∧ result = result' := by
  induction left generalizing calls' with
  | leave last =>
      cases right with
      | leave last' =>
          rw [last] at last'
          cases last'
          exact ⟨rfl, rfl⟩
      | again first' rest' =>
          rw [last] at first'
          cases first'
  | again first rest ih =>
      cases right with
      | leave last' =>
          rw [first] at last'
          cases last'
      | again first' rest' =>
          rw [first] at first'
          cases first'
          obtain ⟨hCalls, hResult⟩ := ih rest'
          exact ⟨congrArg (· + 1) hCalls, hResult⟩

/-- The body is called at least once. -/
theorem Loops.calls_pos {body : State → Turn State Result} {state : State}
    {calls : Nat} {result : Result} (run : Loops body state calls result) : 0 < calls := by
  cases run <;> omega

/-- Inspect the loop after at most `fuel` calls. -/
def runWithin (body : State → Turn State Result) : Nat → State → Option Result
  | 0, _ => none
  | fuel + 1, state =>
      match body state with
      | .again middle => runWithin body fuel middle
      | .leave result => some result

theorem loops_of_runWithin {body : State → Turn State Result} {fuel : Nat} {state : State}
    {result : Result} (h : runWithin body fuel state = some result) :
    ∃ calls, calls ≤ fuel ∧ Loops body state calls result := by
  induction fuel generalizing state with
  | zero => simp [runWithin] at h
  | succ fuel ih =>
      rw [runWithin] at h
      cases hTurn : body state with
      | again middle =>
          simp only [hTurn] at h
          obtain ⟨calls, hCalls, rest⟩ := ih h
          exact ⟨calls + 1, by omega, Loops.again hTurn rest⟩
      | leave value =>
          simp only [hTurn, Option.some.injEq] at h
          subst h
          exact ⟨1, by omega, Loops.leave hTurn⟩

section Measured

variable (body : State → Turn State Result) (measure : State → Nat)
  (hDrops : ∀ state middle, body state = .again middle → measure middle < measure state)

include hDrops in
theorem runWithin_isSome {fuel : Nat} {state : State} (hFuel : measure state < fuel) :
    (runWithin body fuel state).isSome := by
  induction fuel generalizing state with
  | zero => omega
  | succ fuel ih =>
      rw [runWithin]
      cases hTurn : body state with
      | again middle =>
          have hLt := hDrops state middle hTurn
          exact ih (by omega)
      | leave result => rfl

/-- The result of a loop whose measure drops on every `again`. -/
def run (state : State) : Result :=
  (runWithin body (measure state + 1) state).get
    (runWithin_isSome body measure hDrops (Nat.lt_succ_self _))

/-- The measured loop leaves after at most one call more than its measure. -/
theorem run_loops (state : State) :
    ∃ calls, calls ≤ measure state + 1 ∧
      Loops body state calls (run body measure hDrops state) :=
  loops_of_runWithin (Option.some_get _).symm

theorem run_eq_of_loops {state : State} {calls : Nat} {result : Result}
    (h : Loops body state calls result) : run body measure hDrops state = result := by
  obtain ⟨_, _, hRun⟩ := run_loops body measure hDrops state
  exact (hRun.unique h).2

/-- Unfold the first call, as the loop itself is written. -/
theorem run_eq (state : State) :
    run body measure hDrops state = match body state with
      | .again middle => run body measure hDrops middle
      | .leave result => result := by
  cases hTurn : body state with
  | again middle =>
      obtain ⟨_, _, hRest⟩ := run_loops body measure hDrops middle
      exact run_eq_of_loops body measure hDrops (Loops.again hTurn hRest)
  | leave result => exact run_eq_of_loops body measure hDrops (Loops.leave hTurn)

end Measured

end CountedLoop
