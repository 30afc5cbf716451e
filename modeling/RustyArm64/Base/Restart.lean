import Mathlib.Logic.Function.Basic

/-! Machines that may stop at any point and are picked up again. While a machine runs,
its states are stored under its key, and the next one with that key starts from the
last of them. Any number of machines may run at the same time. -/
namespace Restart

structure Machine (Key Request Input Stored Running : Type*) where
  key : Request → Key
  /-- The request throws away what is stored under its key. -/
  clears : Request → Bool
  /-- Where the machine of a request starts, if it does, given what was stored last. -/
  enter : Request → Option Stored → Option Running
  step : Running → Input → Option Running
  /-- What there is to store of a state. -/
  saves : Running → Option Stored

structure World (Key Stored Running Slot : Type*) where
  store : Key → List Stored
  running : Slot → Option (Key × Running)

inductive Event (Request Input Slot : Type*) where
  | launch (slot : Slot) (request : Request)
  | feed (slot : Slot) (input : Input)
  | save (slot : Slot)
  | crash (slot : Slot)

variable {Key Request Input Stored Running Slot : Type*} [DecidableEq Key] [DecidableEq Slot]

namespace World

/-- The store that a request starts from. -/
def cleared (M : Machine Key Request Input Stored Running) (w : World Key Stored Running Slot)
    (request : Request) : Key → List Stored :=
  if M.clears request then Function.update w.store (M.key request) [] else w.store

/-- An event that does not apply leaves the world as it is. -/
def next (M : Machine Key Request Input Stored Running) (w : World Key Stored Running Slot) :
    Event Request Input Slot → World Key Stored Running Slot
  | .launch slot request =>
    match w.running slot with
    | some _ => w
    | none =>
      let store := w.cleared M request
      let entered := M.enter request (store (M.key request)).getLast?
      ⟨store, Function.update w.running slot (entered.map fun state => (M.key request, state))⟩
  | .feed slot input =>
    match w.running slot with
    | none => w
    | some (key, state) =>
      match M.step state input with
      | none => w
      | some state => { w with running := Function.update w.running slot (some (key, state)) }
  | .save slot =>
    match w.running slot with
    | none => w
    | some (key, state) =>
      { w with store := Function.update w.store key (w.store key ++ (M.saves state).toList) }
  | .crash slot => { w with running := Function.update w.running slot none }

end World

section Origins

variable {M : Machine Key Request Input Stored Running} {w : World Key Stored Running Slot}
  {event : Event Request Input Slot} {key : Key}

omit [DecidableEq Slot] in
/-- A launch throws away what is stored under its own key, if at all. -/
theorem cleared_cases (M : Machine Key Request Input Stored Running)
    (w : World Key Stored Running Slot) (request : Request) (key : Key) :
    w.cleared M request key = w.store key ∨ w.cleared M request key = [] ∧ M.key request = key := by
  unfold World.cleared
  split
  · by_cases hKey : key = M.key request
    · rw [hKey, Function.update_self]
      exact Or.inr ⟨rfl, rfl⟩
    · rw [Function.update_of_ne hKey]
      exact Or.inl rfl
  · exact Or.inl rfl

variable (M w event key) in
/-- What is stored under a key stays, is thrown away by a launch, or gains the state of a
machine with this key. -/
theorem store_of_next : (w.next M event).store key = w.store key ∨
    ((w.next M event).store key = [] ∧
      ∃ slot request, event = .launch slot request ∧ M.key request = key) ∨
    ∃ slot state stored, event = .save slot ∧ w.running slot = some (key, state) ∧
      M.saves state = some stored ∧ (w.next M event).store key = w.store key ++ [stored] := by
  cases event with
  | launch slot request =>
      cases hSlot : w.running slot with
      | some entry =>
          simp only [World.next, hSlot]
          exact Or.inl trivial
      | none =>
          simp only [World.next, hSlot]
          rcases cleared_cases M w request key with hSame | ⟨hNone, hKey⟩
          · exact Or.inl hSame
          · exact Or.inr (Or.inl ⟨hNone, slot, request, rfl, hKey⟩)
  | feed slot input =>
      rcases hSlot : w.running slot with _ | ⟨other, state⟩
      · simp only [World.next, hSlot]
        exact Or.inl trivial
      · cases hStep : M.step state input with
        | none =>
            simp only [World.next, hSlot, hStep]
            exact Or.inl trivial
        | some after =>
            simp only [World.next, hSlot, hStep]
            exact Or.inl trivial
  | save slot =>
      rcases hSlot : w.running slot with _ | ⟨other, state⟩
      · simp only [World.next, hSlot]
        exact Or.inl trivial
      · simp only [World.next, hSlot]
        by_cases hKey : key = other
        · rw [hKey, Function.update_self]
          cases hSaves : M.saves state with
          | none => exact Or.inl (List.append_nil _)
          | some stored => exact Or.inr (Or.inr ⟨slot, state, stored, rfl, hSlot, hSaves, rfl⟩)
        · rw [Function.update_of_ne hKey]
          exact Or.inl rfl
  | crash slot => exact Or.inl rfl

/-- The state stored last under a key was so before, or a machine has just stored it. -/
theorem latest_of_next {stored : Stored}
    (hLatest : ((w.next M event).store key).getLast? = some stored) :
    (w.store key).getLast? = some stored ∨ ∃ slot state, event = .save slot ∧
      w.running slot = some (key, state) ∧ M.saves state = some stored := by
  rcases store_of_next M w event key with
    hSame | ⟨hNone, -⟩ | ⟨slot, state, last, hEvent, hSlot, hSaves, hStore⟩
  · exact Or.inl (hSame ▸ hLatest)
  · rw [hNone] at hLatest
    cases hLatest
  · rw [hStore, List.getLast?_concat] at hLatest
    exact Or.inr ⟨slot, state, hEvent, hSlot, hSaves.trans hLatest⟩

/-- A machine ran before, was launched on what had been stored last, or has made a step. -/
theorem running_of_next {slot : Slot} {state : Running}
    (hRunning : (w.next M event).running slot = some (key, state)) :
    w.running slot = some (key, state) ∨
    (∃ request latest, event = .launch slot request ∧ M.key request = key ∧
      (∀ stored ∈ latest, (w.store key).getLast? = some stored) ∧
      M.enter request latest = some state) ∨
    ∃ input prior, event = .feed slot input ∧ w.running slot = some (key, prior) ∧
      M.step prior input = some state := by
  have hUpdate : ∀ {other : Slot} {entry : Option (Key × Running)},
      Function.update w.running other entry slot = some (key, state) →
      w.running slot = some (key, state) ∨ other = slot ∧ entry = some (key, state) := by
    intro other entry hEntry
    by_cases hSlot : slot = other
    · rw [hSlot, Function.update_self] at hEntry
      exact Or.inr ⟨hSlot.symm, hEntry⟩
    · rw [Function.update_of_ne hSlot] at hEntry
      exact Or.inl hEntry
  cases event with
  | launch other request =>
      cases hSlot : w.running other with
      | some entry =>
          simp only [World.next, hSlot] at hRunning
          exact Or.inl hRunning
      | none =>
          simp only [World.next, hSlot] at hRunning
          rcases hUpdate hRunning with hOld | ⟨rfl, hEntry⟩
          · exact Or.inl hOld
          · obtain ⟨entered, hEnter, hPair⟩ := Option.map_eq_some_iff.mp hEntry
            cases hPair
            refine Or.inr (Or.inl ⟨request, _, rfl, rfl, fun stored hStored => ?_, hEnter⟩)
            rcases cleared_cases M w request (M.key request) with hSame | ⟨hNone, -⟩
            · exact hSame ▸ hStored
            · rw [hNone] at hStored
              cases hStored
  | feed other input =>
      rcases hSlot : w.running other with _ | ⟨key', prior⟩
      · simp only [World.next, hSlot] at hRunning
        exact Or.inl hRunning
      · cases hStep : M.step prior input with
        | none =>
            simp only [World.next, hSlot, hStep] at hRunning
            exact Or.inl hRunning
        | some after =>
            simp only [World.next, hSlot, hStep] at hRunning
            rcases hUpdate hRunning with hOld | ⟨rfl, hEntry⟩
            · exact Or.inl hOld
            · cases hEntry
              exact Or.inr (Or.inr ⟨input, prior, rfl, hSlot, hStep⟩)
  | save other =>
      rcases hSlot : w.running other with _ | ⟨key', prior⟩
      · simp only [World.next, hSlot] at hRunning
        exact Or.inl hRunning
      · simp only [World.next, hSlot] at hRunning
        exact Or.inl hRunning
  | crash other =>
      rcases hUpdate hRunning with hOld | ⟨-, hEntry⟩
      · exact Or.inl hOld
      · cases hEntry

end Origins

section Law

/-- What holds of every stored state of a key, and of every running one. -/
structure Law (M : Machine Key Request Input Stored Running) (good : Key → Stored → Prop)
    (live : Key → Running → Prop) : Prop where
  enter : ∀ request latest state, (∀ stored ∈ latest, good (M.key request) stored) →
    M.enter request latest = some state → live (M.key request) state
  step : ∀ key state input next, live key state → M.step state input = some next → live key next
  saves : ∀ key state stored, live key state → M.saves state = some stored → good key stored

/-- A world in which the law holds. -/
structure World.Holds (good : Key → Stored → Prop) (live : Key → Running → Prop)
    (w : World Key Stored Running Slot) : Prop where
  store : ∀ key, ∀ stored ∈ w.store key, good key stored
  running : ∀ slot, ∀ entry ∈ w.running slot, live entry.1 entry.2

variable {M : Machine Key Request Input Stored Running} {good : Key → Stored → Prop}
  {live : Key → Running → Prop} {w : World Key Stored Running Slot}

/-- One event keeps the two invariants. Which machine stores and when it dies is left open. -/
theorem World.Holds.next (law : Law M good live) (h : w.Holds good live)
    (event : Event Request Input Slot) : (w.next M event).Holds good live where
  store := by
    intro key stored hStored
    rcases store_of_next M w event key with hSame | ⟨hNone, -⟩ |
      ⟨slot, state, last, -, hSlot, hSaves, hStore⟩
    · exact h.store key stored (hSame ▸ hStored)
    · rw [hNone] at hStored
      cases hStored
    · rw [hStore] at hStored
      rcases List.mem_append.mp hStored with hOld | hNew
      · exact h.store key stored hOld
      · rw [List.mem_singleton.mp hNew]
        exact law.saves key state last (h.running slot (key, state) hSlot) hSaves
  running := by
    rintro slot ⟨key, state⟩ hRunning
    rcases running_of_next hRunning with hOld | ⟨request, latest, -, rfl, hLatest, hEnter⟩ |
      ⟨input, prior, -, hPrior, hStep⟩
    · exact h.running slot (key, state) hOld
    · refine law.enter request latest state (fun stored hStored => ?_) hEnter
      exact h.store _ stored (List.mem_of_getLast? (hLatest stored hStored))
    · exact law.step key prior input state (h.running slot (key, prior) hPrior) hStep

/-- The law holds after any events, in whatever order machines are launched, run, stored
and stopped. -/
theorem World.Holds.events (law : Law M good live) (h : w.Holds good live)
    (events : List (Event Request Input Slot)) :
    (events.foldl (World.next M) w).Holds good live := by
  induction events generalizing w with
  | nil => exact h
  | cons event rest ih => exact ih (h.next law event)

end Law

section Single

/-- No two machines run under one key. -/
def World.Single (w : World Key Stored Running Slot) : Prop :=
  ∀ ⦃slot other : Slot⦄ ⦃key : Key⦄ ⦃state state' : Running⦄,
    w.running slot = some (key, state) → w.running other = some (key, state') → slot = other

/-- A launch waits until no machine runs under its key. -/
def World.Waits (M : Machine Key Request Input Stored Running) (w : World Key Stored Running Slot) :
    Event Request Input Slot → Prop
  | .launch _ request => ∀ slot state, w.running slot ≠ some (M.key request, state)
  | _ => True

variable {M : Machine Key Request Input Stored Running} {w : World Key Stored Running Slot}
  {event : Event Request Input Slot}

/-- A machine has run under its key before, unless it is just launched. -/
theorem exists_prior_of_next {slot : Slot} {key : Key} {state : Running}
    (hRunning : (w.next M event).running slot = some (key, state)) :
    (∃ prior, w.running slot = some (key, prior)) ∨
      ∃ request, event = .launch slot request ∧ M.key request = key := by
  rcases running_of_next hRunning with hOld | ⟨request, -, hEvent, hKey, -⟩ |
    ⟨-, prior, -, hOld, -⟩
  · exact Or.inl ⟨state, hOld⟩
  · exact Or.inr ⟨request, hEvent, hKey⟩
  · exact Or.inl ⟨prior, hOld⟩

/-- An event keeps one machine per key, when a launch waits for its key to be free. -/
theorem World.Single.next (h : w.Single) (hWaits : w.Waits M event) : (w.next M event).Single := by
  intro slot other key state state' hSlot hOther
  rcases exists_prior_of_next hSlot with ⟨prior, hPrior⟩ | ⟨request, rfl, rfl⟩
  · rcases exists_prior_of_next hOther with ⟨prior', hPrior'⟩ | ⟨request, rfl, rfl⟩
    · exact h hPrior hPrior'
    · exact absurd hPrior (hWaits slot prior)
  · rcases exists_prior_of_next hOther with ⟨prior', hPrior'⟩ | ⟨request', hEvent, -⟩
    · exact absurd hPrior' (hWaits other prior')
    · cases hEvent
      rfl

/-- While a machine runs, what is stored under its key changes only as it stores itself. -/
theorem World.Single.store_of_next (h : w.Single) (hWaits : w.Waits M event) {slot : Slot}
    {key : Key} {state : Running} (hSlot : w.running slot = some (key, state)) :
    (w.next M event).store key = w.store key ∨
      ∃ stored, event = .save slot ∧ M.saves state = some stored ∧
        (w.next M event).store key = w.store key ++ [stored] := by
  rcases Restart.store_of_next M w event key with
    hSame | ⟨-, other, request, rfl, rfl⟩ | ⟨other, state', stored, rfl, hOther, hSaves, hStore⟩
  · exact Or.inl hSame
  · exact absurd hSlot (hWaits slot state)
  · obtain rfl := h hSlot hOther
    cases hSlot.symm.trans hOther
    exact Or.inr ⟨stored, rfl, hSaves, hStore⟩

end Single

section Isolation

/-- The event has to do with the key. -/
def World.touches (M : Machine Key Request Input Stored Running) (key : Key)
    (w : World Key Stored Running Slot) : Event Request Input Slot → Bool
  | .launch slot request => (w.running slot).isNone && decide (M.key request = key)
  | .feed slot _ => (w.running slot).any fun entry => decide (entry.1 = key)
  | .save slot => (w.running slot).any fun entry => decide (entry.1 = key)
  | .crash slot => (w.running slot).any fun entry => decide (entry.1 = key)

/-- The events that have to do with the key, each in the world in which it happens. -/
def relevant (M : Machine Key Request Input Stored Running) (key : Key) :
    World Key Stored Running Slot → List (Event Request Input Slot) →
      List (Event Request Input Slot)
  | _, [] => []
  | w, event :: rest =>
    if w.touches M key event then event :: relevant M key (w.next M event) rest
    else relevant M key (w.next M event) rest

/-- The second world has what the first has under the key, and no machine with another. -/
structure SameAt (key : Key) (w v : World Key Stored Running Slot) : Prop where
  store : v.store key = w.store key
  running : ∀ slot, v.running slot = (w.running slot).filter fun entry => decide (entry.1 = key)

variable {M : Machine Key Request Input Stored Running} {key : Key}
  {w v : World Key Stored Running Slot}

omit [DecidableEq Slot] in
theorem running_of_touches {slot : Slot}
    (hTouches : (w.running slot).any (fun entry => decide (entry.1 = key)) = true) :
    ∃ state, w.running slot = some (key, state) := by
  obtain ⟨⟨other, state⟩, hEntry, hKey⟩ := (Option.any_eq_true ..).mp hTouches
  exact ⟨state, by rw [hEntry, ← of_decide_eq_true hKey]⟩

theorem filter_self (state : Running) :
    (some (key, state)).filter (fun entry => decide (entry.1 = key)) = some (key, state) := by
  rw [Option.filter_some, decide_eq_true rfl, if_pos rfl]

omit [DecidableEq Slot] in
theorem SameAt.running_of_key (h : SameAt key w v) {slot : Slot} {state : Running}
    (hSlot : w.running slot = some (key, state)) : v.running slot = some (key, state) := by
  rw [h.running, hSlot, filter_self]

omit [DecidableEq Slot] in
/-- A machine under another key is missing in the second world, and nothing asks for it. -/
theorem SameAt.running_of_other (h : SameAt key w v) {slot : Slot} {other : Key} {state : Running}
    (hSlot : w.running slot = some (other, state))
    (hTouches : (w.running slot).any (fun entry => decide (entry.1 = key)) = false) :
    v.running slot = none ∧ other ≠ key := by
  rw [hSlot, Option.any_some, decide_eq_false_iff_not] at hTouches
  refine ⟨?_, hTouches⟩
  rw [h.running, hSlot, Option.filter_some, decide_eq_false hTouches, if_neg Bool.false_ne_true]

omit [DecidableEq Slot] in
theorem SameAt.cleared (h : SameAt key w v) {request : Request} (hKey : M.key request = key) :
    v.cleared M request key = w.cleared M request key := by
  unfold World.cleared
  split
  · rw [hKey, Function.update_self, Function.update_self]
  · exact h.store

omit [DecidableEq Slot] in
theorem SameAt.cleared_of_ne (h : SameAt key w v) {request : Request} (hKey : M.key request ≠ key) :
    v.store key = w.cleared M request key := by
  unfold World.cleared
  split
  · rw [Function.update_of_ne hKey.symm, h.store]
  · exact h.store

/-- The slots agree after a change that agrees. -/
theorem SameAt.update (h : SameAt key w v) (slot : Slot) {entry entry' : Option (Key × Running)}
    (hEntry : entry' = entry.filter fun new => decide (new.1 = key)) (other : Slot) :
    Function.update v.running slot entry' other =
      (Function.update w.running slot entry other).filter fun new => decide (new.1 = key) := by
  by_cases hSlot : other = slot
  · rw [hSlot, Function.update_self, Function.update_self, hEntry]
  · rw [Function.update_of_ne hSlot, Function.update_of_ne hSlot, h.running]

/-- A change that only the first world makes does not show under the key. -/
theorem SameAt.update_left (h : SameAt key w v) (slot : Slot) {entry : Option (Key × Running)}
    (hNone : v.running slot = none) (hEntry : ∀ new ∈ entry, new.1 ≠ key) (other : Slot) :
    v.running other =
      (Function.update w.running slot entry other).filter fun new => decide (new.1 = key) := by
  by_cases hSlot : other = slot
  · rw [hSlot, Function.update_self, hNone, eq_comm, Option.filter_eq_none_iff]
    intro new hNew
    simpa using hEntry new hNew
  · rw [Function.update_of_ne hSlot, h.running]

/-- An event that has to do with the key does the same in both worlds. -/
theorem SameAt.next (h : SameAt key w v) {event : Event Request Input Slot}
    (hTouches : w.touches M key event = true) : SameAt key (w.next M event) (v.next M event) := by
  cases event with
  | launch slot request =>
      obtain ⟨hFree, hKey⟩ := (Bool.and_eq_true _ _).mp hTouches
      have hW : w.running slot = none := Option.isNone_iff_eq_none.mp hFree
      have hV : v.running slot = none := by rw [h.running, hW, Option.filter_none]
      have hRequest : M.key request = key := of_decide_eq_true hKey
      have hCleared := h.cleared hRequest
      simp only [World.next, hW, hV, hRequest, hCleared]
      refine ⟨hCleared, h.update slot ?_⟩
      cases M.enter request (w.cleared M request key).getLast? with
      | none => rfl
      | some state => exact (filter_self state).symm
  | feed slot input =>
      obtain ⟨state, hW⟩ := running_of_touches hTouches
      have hV := h.running_of_key hW
      cases hStep : M.step state input with
      | none =>
          simp only [World.next, hW, hV, hStep]
          exact h
      | some after =>
          simp only [World.next, hW, hV, hStep]
          exact ⟨h.store, h.update slot (filter_self after).symm⟩
  | save slot =>
      obtain ⟨state, hW⟩ := running_of_touches hTouches
      have hV := h.running_of_key hW
      simp only [World.next, hW, hV]
      refine ⟨?_, h.running⟩
      dsimp only
      rw [Function.update_self, Function.update_self, h.store]
  | crash slot =>
      obtain ⟨state, hW⟩ := running_of_touches hTouches
      exact ⟨h.store, h.update slot rfl⟩

/-- Any other event leaves the second world where it is. -/
theorem SameAt.next_left (h : SameAt key w v) {event : Event Request Input Slot}
    (hTouches : w.touches M key event = false) : SameAt key (w.next M event) v := by
  cases event with
  | launch slot request =>
      rcases hW : w.running slot with _ | entry
      · have hV : v.running slot = none := by rw [h.running, hW, Option.filter_none]
        have hRequest : M.key request ≠ key := by simpa [World.touches, hW] using hTouches
        simp only [World.next, hW]
        refine ⟨h.cleared_of_ne hRequest, h.update_left slot hV fun new hNew => ?_⟩
        obtain ⟨state, -, rfl⟩ := Option.map_eq_some_iff.mp hNew
        exact hRequest
      · simp only [World.next, hW]
        exact h
  | feed slot input =>
      rcases hW : w.running slot with _ | ⟨other, state⟩
      · simp only [World.next, hW]
        exact h
      · obtain ⟨hV, hOther⟩ := h.running_of_other hW hTouches
        cases hStep : M.step state input with
        | none =>
            simp only [World.next, hW, hStep]
            exact h
        | some after =>
            simp only [World.next, hW, hStep]
            refine ⟨h.store, h.update_left slot hV fun new hNew => ?_⟩
            cases hNew
            exact hOther
  | save slot =>
      rcases hW : w.running slot with _ | ⟨other, state⟩
      · simp only [World.next, hW]
        exact h
      · obtain ⟨-, hOther⟩ := h.running_of_other hW hTouches
        simp only [World.next, hW]
        refine ⟨?_, h.running⟩
        dsimp only
        rw [Function.update_of_ne hOther.symm, h.store]
  | crash slot =>
      have hV : v.running slot = none := by
        rw [h.running, Option.filter_eq_none_iff]
        intro entry hEntry
        rw [(Option.any_eq_false ..).mp hTouches entry hEntry]
        exact Bool.false_ne_true
      exact ⟨h.store, h.update_left slot hV fun new hNew => nomatch hNew⟩

/-- What happens under one key depends on the events that have to do with it, and on no
other. -/
theorem SameAt.events (h : SameAt key w v) (events : List (Event Request Input Slot)) :
    SameAt key (events.foldl (World.next M) w)
      ((relevant M key w events).foldl (World.next M) v) := by
  induction events generalizing w v with
  | nil => exact h
  | cons event rest ih =>
      rw [relevant, List.foldl_cons]
      cases hTouches : w.touches M key event with
      | true => exact ih (h.next hTouches)
      | false => exact ih (h.next_left hTouches)

end Isolation

end Restart
