import RustyArm64.Orchestrator.Driver
import RustyArm64.Orchestrator.Progress

/-! Threads under crashes. However processes are launched, stopped and launched again,
what is stored and what runs is a point of one run of the graph that was never stopped,
threads do not see each other, and a process that is alone on its thread can still be
brought to an end, as long as its environment answers. -/
namespace Orchestrator

open Replay (Along)
open Restart (World Law SameAt relevant latest_of_next running_of_next)

variable {Id : Type} [DecidableEq Id] [Value Id]

theorem goal_of_step {settings : Settings Id} {config next : Config Id} {input : Input}
    (hStep : step settings config input = some next) : next.state.goal = config.state.goal := by
  cases moves_of_step hStep <;> rfl

/-- No step writes the goal, so a process keeps the one it was launched with. -/
theorem goal_of_run {settings : Settings Id} {goal : String} {inputs : List Input}
    {config : Config Id} (hRun : runOf settings goal inputs = some config) :
    config.state.goal = goal := by
  refine Replay.replay_history (fun _ config => config.state.goal = goal) rfl ?_ hRun
  intro past config input next _ hGoal hStep
  exact (goal_of_step hStep).trans hGoal

variable (hexDigest : String → String) (settings : Settings Id)

/-- A point of a run that was never stopped, for a goal of this thread. -/
structure Uninterrupted (threadId goal : String) (config : Config Id) : Prop where
  normal : normalizeGoal goal = goal
  thread : threadId = makeThreadId hexDigest goal
  run : ∃ inputs, runOf settings goal inputs = some config

variable {hexDigest settings}

theorem Uninterrupted.goal {threadId goal : String} {config : Config Id}
    (h : Uninterrupted hexDigest settings threadId goal config) : config.state.goal = goal := by
  obtain ⟨inputs, hRun⟩ := h.run
  exact goal_of_run hRun

/-- An uninterrupted run may go on by a step. -/
theorem Uninterrupted.step {threadId goal : String} {config next : Config Id} {input : Input}
    (h : Uninterrupted hexDigest settings threadId goal config)
    (hStep : Orchestrator.step settings config input = some next) :
    Uninterrupted hexDigest settings threadId goal next := by
  obtain ⟨inputs, hRun⟩ := h.run
  exact ⟨h.normal, h.thread, inputs ++ [input],
    Replay.replay_snoc_eq_some.mpr ⟨config, hRun, hStep⟩⟩

/-- It may go on by a driver input too, which at the prompt brings the second reply. -/
theorem Uninterrupted.advance {threadId goal : String} {config next : Config Id}
    {input : DriverInput} (h : Uninterrupted hexDigest settings threadId goal config)
    (hAdvance : Orchestrator.advance settings config input = some next) :
    Uninterrupted hexDigest settings threadId goal next := by
  rcases step_of_advance hAdvance with ⟨rfl, -⟩ | ⟨line, reply, -, hStep⟩ | ⟨nodeInput, -, hStep⟩
  · exact h
  · exact h.step hStep
  · exact h.step hStep

variable (hexDigest settings)

/-- A process works on its own goal, or on an empty one that has the same thread. -/
structure OwnGoal (threadId passed : String) (config : Config Id) : Prop where
  normal : normalizeGoal passed = passed
  thread : threadId = makeThreadId hexDigest passed
  run : ∃ goal, Uninterrupted hexDigest settings threadId goal config ∧
    (goal = passed ∨ goal = "")

/-- What the driver keeps of every checkpoint and of every process. -/
theorem driver_law : Law (driver hexDigest settings)
    (fun threadId config => ∃ goal, Uninterrupted hexDigest settings threadId goal config)
    (fun threadId state => OwnGoal hexDigest settings threadId state.1 state.2) where
  enter := by
    intro args latest state hLatest hEnter
    have hNormal := normalizeGoal_normalizeGoal args.goal
    unfold driver at hEnter
    dsimp only at hEnter
    split at hEnter
    · cases hEnter
      exact ⟨hNormal, rfl, _, ⟨hNormal, rfl, [], rfl⟩, Or.inl rfl⟩
    · rename_i existing
      obtain ⟨goal, hGoal⟩ := hLatest existing rfl
      split at hEnter
      · cases hEnter
      · rename_i hSame
        cases hEnter
        refine ⟨hNormal, rfl, goal, hGoal, ?_⟩
        rw [hGoal.goal, not_and_or, not_not, not_not] at hSame
        exact hSame.symm
  step := by
    rintro threadId ⟨passed, config⟩ input ⟨passed', next⟩ ⟨hNormal, hThread, goal, hRun, hGoal⟩
      hStep
    obtain ⟨after, hAdvance, hPair⟩ := Option.map_eq_some_iff.mp hStep
    cases hPair
    exact ⟨hNormal, hThread, goal, hRun.advance hAdvance, hGoal⟩
  saves := by
    rintro threadId ⟨passed, config⟩ stored ⟨-, -, goal, hRun, -⟩ hSaves
    unfold driver at hSaves
    dsimp only at hSaves
    split at hSaves
    · cases hSaves
    · cases hSaves
      exact ⟨goal, hRun⟩

/-- No file, and nothing runs. -/
def System.empty : System Id := ⟨none, fun _ => none⟩

/-- The system and its abstract machine go through the same events. -/
theorem view_events (system : System Id) (events : List SystemEvent) :
    (events.foldl (System.next hexDigest settings) system).view =
      events.foldl (World.next (driver hexDigest settings)) system.view := by
  induction events generalizing system with
  | nil => rfl
  | cons event rest ih => rw [List.foldl_cons, List.foldl_cons, ih, view_next]

omit [DecidableEq Id] [Value Id] in
theorem holds_empty (good : String → Config Id → Prop) (live : String → String × Config Id → Prop) :
    (System.empty : System Id).view.Holds good live where
  store _ _ hStored := nomatch hStored
  running _ _ hRunning := nomatch hRunning

section Owners

/-- A thread has one process at a time. The planner runs when the checkpoint before it is
written, as it is at the latest when its stream ends, and the prompt comes behind that. -/
def OnePerThread (system : System Id) : SystemEvent → Prop
  | .launch _ args => ∀ pid process, system.processes pid = some process →
      process.threadId ≠ makeThreadId hexDigest (normalizeGoal args.goal)
  | .feed pid _ => ∀ process, system.processes pid = some process →
      process.config.place = .planner →
      (openSaver system.disk).getTuple process.threadId = some process.config
  | .save _ => True
  | .crash _ => True

/-- The events that leave each thread to one process at a time. -/
def Separate (events : List SystemEvent) : Prop :=
  Along (fun system event => some (System.next hexDigest settings system event))
    (OnePerThread hexDigest) System.empty events

variable {hexDigest settings}

omit [DecidableEq Id] [Value Id] in
/-- A process can be read off the abstract machine: nothing is hidden there. -/
theorem process_of_view {system : System Id} {pid : Nat} {threadId goal : String}
    {config : Config Id} (hView : system.view.running pid = some (threadId, goal, config)) :
    system.processes pid = some ⟨threadId, goal, config⟩ := by
  obtain ⟨process, hPid, hSame⟩ := Option.map_eq_some_iff.mp hView
  cases hSame
  exact hPid

/-- An event brings no checkpoint to the top of a thread but the one that it stores. -/
theorem getTuple_of_next {system : System Id} {event : SystemEvent} {threadId : String}
    {config : Config Id}
    (hLatest : (openSaver (system.next hexDigest settings event).disk).getTuple threadId =
      some config) :
    (openSaver system.disk).getTuple threadId = some config ∨
      ∃ pid process, event = .save pid ∧ system.processes pid = some process ∧
        process.threadId = threadId ∧ process.config = config := by
  have hView : ((system.next hexDigest settings event).view.store threadId).getLast? =
      some config := hLatest
  rw [view_next] at hView
  rcases latest_of_next hView with hOld | ⟨pid, ⟨goal, stored⟩, hEvent, hPid, hSaves⟩
  · exact Or.inl hOld
  · have hStored : stored = config := by
      unfold driver at hSaves
      dsimp only at hSaves
      split at hSaves
      · cases hSaves
      · exact Option.some.inj hSaves
    exact Or.inr ⟨pid, _, hEvent, process_of_view hPid, rfl, hStored⟩

/-- Where a process comes from. -/
theorem process_of_next {system : System Id} {event : SystemEvent} {pid : Nat}
    {process : Process Id}
    (hPid : (system.next hexDigest settings event).processes pid = some process) :
    system.processes pid = some process ∨
    (∃ args, event = .launch pid args ∧
      makeThreadId hexDigest (normalizeGoal args.goal) = process.threadId ∧
      (process.config.place = .planner ∨
        (openSaver system.disk).getTuple process.threadId = some process.config)) ∨
    ∃ input prior, event = .feed pid input ∧ system.processes pid = some prior ∧
      prior.threadId = process.threadId ∧
      advance settings prior.config input = some process.config := by
  have hView := view_running hPid
  rw [Option.map_some, view_next] at hView
  rcases running_of_next hView with hOld | ⟨args, latest, hEvent, hThread, hLatest, hEnter⟩ |
    ⟨input, ⟨goal, config⟩, hEvent, hOld, hStep⟩
  · exact Or.inl (process_of_view hOld)
  · refine Or.inr (Or.inl ⟨args, hEvent, hThread, ?_⟩)
    unfold driver at hEnter
    dsimp only at hEnter
    split at hEnter
    · obtain ⟨-, hConfig⟩ := Prod.mk.inj (Option.some.inj hEnter)
      exact Or.inl (hConfig ▸ rfl)
    · split at hEnter
      · cases hEnter
      · obtain ⟨-, hConfig⟩ := Prod.mk.inj (Option.some.inj hEnter)
        exact Or.inr (hConfig ▸ hLatest _ rfl)
  · obtain ⟨next, hAdvance, hPair⟩ := Option.map_eq_some_iff.mp hStep
    obtain ⟨-, hConfig⟩ := Prod.mk.inj hPair
    exact Or.inr (Or.inr ⟨input, _, hEvent, process_of_view hOld, rfl, hAdvance.trans
      (congrArg some hConfig)⟩)

/-- A process comes to the prompt from the planner, or waits there. -/
theorem suspended_of_advance {config next : Config Id} {input : DriverInput} {shown : String}
    (hAdvance : Orchestrator.advance settings config input = some next)
    (hPlace : next.place = .suspended shown) :
    config = next ∨ config = ⟨.planner, next.state⟩ := by
  have hDraft : ∀ {input : Input}, Orchestrator.step settings config input = some next →
      config = ⟨.planner, next.state⟩ := by
    intro input hStep
    have hPlanner := planner_of_suspended hStep hPlace
    cases moves_of_step hStep with
    | draft state reply => rfl
    | _ => cases hPlanner
  rcases step_of_advance hAdvance with ⟨hSame, -⟩ | ⟨line, reply, -, hStep⟩ | ⟨nodeInput, -, hStep⟩
  · exact Or.inl hSame.symm
  · exact Or.inr (hDraft hStep)
  · exact Or.inr (hDraft hStep)

/-- No checkpoint is of a prompt. -/
theorem saved_law : Law (driver hexDigest settings)
    (fun _ config => ∀ shown, config.place ≠ .suspended shown) (fun _ _ => True) where
  enter := fun _ _ _ _ _ => trivial
  step := fun _ _ _ _ _ _ => trivial
  saves := by
    rintro threadId ⟨passed, config⟩ stored - hSaves shown
    unfold driver at hSaves
    dsimp only at hSaves
    split at hSaves
    · cases hSaves
    · rename_i hOther
      cases hSaves
      exact hOther shown

/-- While one process at a time works on a thread, the latest checkpoint of a thread at its
prompt is where its process stands. So an answer goes on from there. -/
structure Alone (system : System Id) : Prop where
  single : system.view.Single
  saved : ∀ threadId, ∀ config ∈ (openSaver system.disk).thread threadId,
    ∀ shown, config.place ≠ .suspended shown
  prompt : ∀ {pid process shown}, system.processes pid = some process →
    process.config.place = .suspended shown →
    (openSaver system.disk).getTuple process.threadId = some ⟨.planner, process.config.state⟩

omit [DecidableEq Id] [Value Id] in
theorem alone_empty : Alone (System.empty : System Id) where
  single := fun _ _ _ _ _ hSlot => nomatch hSlot
  saved := fun _ _ hStored => nomatch hStored
  prompt := fun hPid => nomatch hPid

theorem System.disk_feed (system : System Id) (pid : Nat) (input : DriverInput) :
    (system.next hexDigest settings (.feed pid input)).disk = system.disk := by
  unfold System.next
  dsimp only
  split
  · rfl
  · split <;> rfl

variable {system : System Id} {event : SystemEvent}

/-- One process per thread, in the words of the abstract machine. -/
theorem OnePerThread.waits (h : OnePerThread hexDigest system event) :
    system.view.Waits (driver hexDigest settings) event := by
  cases event with
  | launch pid args =>
      rintro other ⟨goal, config⟩ hRunning
      exact h other _ (process_of_view hRunning) rfl
  | feed => trivial
  | save => trivial
  | crash => trivial

/-- An event keeps that a process is alone, nothing is saved at a prompt, and the thread of a
process at the prompt is where the process stands. -/
theorem Alone.next (h : Alone system) (hOne : OnePerThread hexDigest system event) :
    Alone (system.next hexDigest settings event) where
  single := by
    rw [view_next]
    exact h.single.next hOne.waits
  saved := by
    have hHolds : system.view.Holds (fun _ config => ∀ shown, config.place ≠ .suspended shown)
        fun _ _ => True := ⟨h.saved, fun _ _ _ => trivial⟩
    have hNext := hHolds.next (@saved_law Id _ _ hexDigest settings) event
    rw [← view_next] at hNext
    exact hNext.store
  prompt := by
    intro pid process shown hPid hPlace
    rcases process_of_next hPid with hOld | ⟨args, -, -, hFrom⟩ |
      ⟨input, prior, rfl, hPrior, hThread, hAdvance⟩
    · have hWaits : system.view.Waits (driver hexDigest settings) event := hOne.waits
      rcases h.single.store_of_next hWaits (view_running hOld) with hSame | ⟨stored, -, hSaves, -⟩
      · rw [← view_next] at hSame
        exact (congrArg List.getLast? hSame).trans (h.prompt hOld hPlace)
      · -- At the prompt a process has nothing to store but its draft.
        unfold driver at hSaves
        simp [hPlace] at hSaves
    · rcases hFrom with hPlanner | hLatest
      · exact Place.noConfusion (hPlanner.symm.trans hPlace)
      · exact absurd hPlace (h.saved _ _ (List.mem_of_getLast? hLatest) shown)
    · rw [System.disk_feed, ← hThread]
      rcases suspended_of_advance hAdvance hPlace with hSame | hPlanner
      · rw [← hSame]
        exact h.prompt hPrior (hSame ▸ hPlace)
      · rw [hOne prior hPrior (congrArg Config.place hPlanner), hPlanner]

/-- A reachable system in which threads are left to one process each. -/
theorem alone_of_separate {events : List SystemEvent} (h : Separate hexDigest settings events) :
    Alone (events.foldl (System.next hexDigest settings) System.empty) := by
  refine Replay.replay_along (OnePerThread hexDigest) (fun _ system => Alone system) alone_empty ?_
    (Replay.replay_total ..) h
  intro past system event next _ hAlone hOne hNext
  cases hNext
  exact hAlone.next hOne

end Owners

omit [DecidableEq Id] [Value Id] in
/-- A launch is refused for a checkpoint of another goal that has the same thread. -/
theorem exists_stored_of_refused {disk : Option (Database Id)} {args : Arguments} {message : String}
    (hRefused : (launch hexDigest disk args).2 = .error message) :
    ∃ stored ∈ (openSaver (launchDisk hexDigest disk args)).thread
        (makeThreadId hexDigest (normalizeGoal args.goal)),
      stored.state.goal ≠ "" ∧ stored.state.goal ≠ normalizeGoal args.goal ∧
      message = differentGoal (makeThreadId hexDigest (normalizeGoal args.goal))
        stored.state.goal (normalizeGoal args.goal) := by
  unfold launch at hRefused
  dsimp only at hRefused
  split at hRefused
  · cases hRefused
  · rename_i existing hExisting
    split at hRefused
    · rename_i hOther
      cases hRefused
      exact ⟨existing, List.mem_of_getLast? hExisting, hOther.1, hOther.2, rfl⟩
    · cases hRefused

omit [DecidableEq Id] [Value Id] in
/-- With a reset there is no checkpoint to refuse. -/
theorem thread_launchDisk_of_reset (disk : Option (Database Id)) {args : Arguments}
    (hReset : args.reset = true) :
    (openSaver (launchDisk hexDigest disk args)).thread
      (makeThreadId hexDigest (normalizeGoal args.goal)) = [] := by
  rw [launchDisk, hReset, if_pos rfl, thread_resetThread_self]

/-- Whatever is launched, stopped and launched again, every checkpoint is a point of one
run that was never stopped, every process works on the goal it was launched with, and at
the prompt the latest checkpoint is where the process stands. A launch is refused only for a
goal whose digest begins as that of another one. A thread has one process at a time here:
two that answer their prompts go on from each other's checkpoints. -/
theorem restarts_are_unseen {events : List SystemEvent}
    (hSeparate : Separate hexDigest settings events) :
    let system := events.foldl (System.next hexDigest settings) System.empty
    (∀ threadId, ∀ config ∈ (openSaver system.disk).thread threadId,
      ∃ goal, Uninterrupted hexDigest settings threadId goal config) ∧
    (∀ pid process, system.processes pid = some process →
      OwnGoal hexDigest settings process.threadId process.goal process.config ∧
      ∀ shown, process.config.place = .suspended shown →
        (openSaver system.disk).getTuple process.threadId =
          some ⟨.planner, process.config.state⟩) ∧
    ∀ args message, (launch hexDigest system.disk args).2 = .error message →
      args.reset = false ∧ ∃ stored, normalizeGoal stored = stored ∧ stored ≠ "" ∧
        stored ≠ normalizeGoal args.goal ∧
        makeThreadId hexDigest stored = makeThreadId hexDigest (normalizeGoal args.goal) ∧
        message = differentGoal (makeThreadId hexDigest stored) stored
          (normalizeGoal args.goal) := by
  intro system
  have hHolds := (holds_empty _ _).events (driver_law hexDigest settings) events
  rw [← view_events] at hHolds
  refine ⟨hHolds.store, fun pid process hPid => ?_, fun args message hRefused => ?_⟩
  · have hOwn := hHolds.running pid (process.threadId, process.goal, process.config)
      (view_running hPid)
    exact ⟨hOwn, fun shown hPlace => (alone_of_separate hSeparate).prompt hPid hPlace⟩
  · obtain ⟨config, hStored, hSome, hOther, hMessage⟩ := exists_stored_of_refused hexDigest hRefused
    cases hReset : args.reset with
    | true =>
        rw [thread_launchDisk_of_reset hexDigest system.disk hReset] at hStored
        cases hStored
    | false =>
        rw [launchDisk, hReset, if_neg Bool.false_ne_true] at hStored
        obtain ⟨goal, hGoal⟩ := hHolds.store _ config hStored
        refine ⟨rfl, goal, hGoal.normal, ?_, ?_, hGoal.thread.symm, ?_⟩
        · rwa [hGoal.goal] at hSome
        · rwa [hGoal.goal] at hOther
        · rw [← hGoal.thread, hMessage, hGoal.goal]

omit [DecidableEq Id] [Value Id] in
theorem entry_injective :
    Function.Injective fun p : Process Id => (p.threadId, p.goal, p.config) := by
  rintro ⟨threadId, goal, config⟩ ⟨threadId', goal', config'⟩ hPair
  simpa using hPair

omit [DecidableEq Id] [Value Id] in
theorem processes_of_view {system other : System Id} {threadId : String} {pid : Nat}
    (hView : other.view.running pid =
      (system.view.running pid).filter fun entry => decide (entry.1 = threadId)) :
    other.processes pid = (system.processes pid).filter fun p => p.threadId = threadId := by
  refine Option.map_injective entry_injective (hView.trans ?_)
  cases hPid : system.processes pid with
  | none =>
      rw [view_running hPid]
      rfl
  | some process =>
      rw [view_running hPid]
      by_cases hThread : process.threadId = threadId
      · simp [Option.filter_some, hThread]
      · simp [Option.filter_some, hThread]

/-- A thread does not see what happens to the others: its checkpoints and its processes
are those of the same system after the events that have to do with it. The working tree
is not part of the system; all threads share it. -/
theorem threads_are_isolated (threadId : String) (events : List SystemEvent) :
    let all := events.foldl (System.next hexDigest settings) System.empty
    let own := (relevant (driver hexDigest settings) threadId System.empty.view events).foldl
      (System.next hexDigest settings) System.empty
    (openSaver own.disk).thread threadId = (openSaver all.disk).thread threadId ∧
    ∀ pid, own.processes pid = (all.processes pid).filter fun p => p.threadId = threadId := by
  intro all own
  have hEmpty : SameAt threadId (System.empty : System Id).view System.empty.view :=
    ⟨rfl, fun _ => rfl⟩
  have hSame := @SameAt.events _ _ _ _ _ _ _ _ (driver hexDigest settings) _ _ _ hEmpty events
  rw [← view_events, ← view_events] at hSame
  exact ⟨hSame.store, fun pid => processes_of_view (hSame.running pid)⟩

section Resumption

variable {settings}

/-- A process stands where its thread was stored last, or waits at its prompt. -/
def Saved (system : System Id) (process : Process Id) : Prop :=
  (openSaver system.disk).getTuple process.threadId = some process.config ∨
    ∃ shown, process.config.place = .suspended shown

/-- The second system has a process at another configuration, and what it has stored. -/
structure Moved (system after : System Id) (pid : Nat) (process : Process Id) : Prop where
  processes : after.processes = Function.update system.processes pid (some process)
  others : ∀ threadId ≠ process.threadId,
    (openSaver after.disk).thread threadId = (openSaver system.disk).thread threadId
  saved : Saved after process

omit [DecidableEq Id] [Value Id] in
theorem Moved.trans {system mid after : System Id} {pid : Nat} {process process' : Process Id}
    (h : Moved system mid pid process) (h' : Moved mid after pid process')
    (hThread : process'.threadId = process.threadId) : Moved system after pid process' where
  processes := by rw [h'.processes, h.processes, Function.update_idem]
  others := fun threadId hOther =>
    (h'.others threadId hOther).trans (h.others threadId (hThread ▸ hOther))
  saved := h'.saved

/-- The processes of a reachable system are points of uninterrupted runs. -/
theorem exists_run_of_process {events : List SystemEvent} {pid : Nat} {process : Process Id}
    (hPid : (events.foldl (System.next hexDigest settings) System.empty).processes pid =
      some process) :
    ∃ goal inputs, runOf settings goal inputs = some process.config := by
  have hHolds := (holds_empty _ _).events (driver_law hexDigest settings) events
  rw [← view_events] at hHolds
  obtain ⟨-, -, goal, ⟨-, -, hRun⟩, -⟩ :=
    hHolds.running pid (process.threadId, process.goal, process.config) (view_running hPid)
  exact ⟨goal, hRun⟩

/-- The digest of the goal `goal`. -/
def goalDigest (_ : String) : String := "db9a022b75625d5624059371d5ef893e5b2458e2"

/-- A process dies at the prompt, and the next one is asked for another draft. -/
def launchedAgain : List SystemEvent :=
  [.launch 0 ⟨"goal", false⟩, .save 0, .feed 0 (.node (.draft "id: a")), .crash 0,
    .launch 1 ⟨" goal ", false⟩, .feed 1 (.node (.draft "id: b"))]

theorem launchedAgain_separate : Separate goalDigest idLineSettings launchedAgain := by
  refine ⟨fun pid process hPid => (nomatch hPid), ?_⟩
  rintro _ ⟨⟩
  refine ⟨trivial, ?_⟩
  rintro _ ⟨⟩
  have hFirst : OnePerThread goalDigest (launchedAgain.take 2 |>.foldl
      (System.next goalDigest idLineSettings) System.empty) (.feed 0 (.node (.draft "id: a"))) := by
    rintro _ ⟨⟩ -
    rfl
  refine ⟨hFirst, ?_⟩
  rintro _ ⟨⟩
  refine ⟨trivial, ?_⟩
  rintro _ ⟨⟩
  have hNone : ∀ pid, (launchedAgain.take 4 |>.foldl
      (System.next goalDigest idLineSettings) System.empty).processes pid = none := by
    rintro (_ | pid)
    · rfl
    · rfl
  refine ⟨fun pid process hPid => (nomatch (hNone pid).symm.trans hPid), ?_⟩
  rintro _ ⟨⟩
  refine ⟨?_, fun _ _ => trivial⟩
  rintro _ ⟨⟩ -
  rfl

theorem launchedAgain_process :
    (launchedAgain.foldl (System.next goalDigest idLineSettings) System.empty).processes 1 =
      some ⟨"arm64-sim-db9a022b", "goal", ⟨.suspended "id: b", initialState String "goal"⟩⟩ := by
  decide +kernel

theorem restarts_are_unseen_launchedAgain :
    OwnGoal goalDigest idLineSettings "arm64-sim-db9a022b" "goal"
      ⟨.suspended "id: b", initialState String "goal"⟩ ∧
    ∀ shown, Place.suspended "id: b" = .suspended shown →
      (openSaver (launchedAgain.foldl (System.next goalDigest idLineSettings)
        System.empty).disk).getTuple "arm64-sim-db9a022b" = some (start String "goal") :=
  (restarts_are_unseen goalDigest idLineSettings launchedAgain_separate).2.1 1 _
    launchedAgain_process

end Resumption

end Orchestrator
