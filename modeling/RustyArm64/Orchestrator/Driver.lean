import RustyArm64.Base.Restart
import RustyArm64.Orchestrator.Graph

/-! The command line: threads of the checkpoint database, launches that start or resume
a thread, and the prompt at an interrupt. A process may die at any point. -/
namespace Orchestrator

section Goal

/-- The longest runs of characters that are not white space, behind the characters of
the word so far. -/
def wordsFrom : List Char → List Char → List (List Char)
  | word, [] => if word = [] then [] else [word.reverse]
  | word, c :: rest =>
    if isSpace c then (if word = [] then [] else [word.reverse]) ++ wordsFrom [] rest
    else wordsFrom (c :: word) rest

/-- `str.split()`. -/
def splitWords (text : String) : List String := (wordsFrom [] text.toList).map String.ofList

/-- `" ".join(goal.split())`. -/
def normalizeGoal (goal : String) : String := " ".intercalate (splitWords goal)

/-- A word of a split text. -/
def IsWord (word : List Char) : Prop := word ≠ [] ∧ ∀ c ∈ word, isSpace c = false

theorem wordsFrom_append {text : List Char} (hText : ∀ c ∈ text, isSpace c = false)
    (word rest : List Char) :
    wordsFrom word (text ++ rest) = wordsFrom (text.reverse ++ word) rest := by
  induction text generalizing word with
  | nil => rfl
  | cons c tail ih =>
      have hHead : isSpace c = false := hText c List.mem_cons_self
      rw [List.cons_append, wordsFrom, hHead, if_neg Bool.false_ne_true,
        ih fun d hD => hText d (List.mem_cons_of_mem c hD), List.reverse_cons, List.append_assoc]
      rfl

theorem isWord_of_flush {word part : List Char} (hWord : ∀ c ∈ word, isSpace c = false)
    (hPart : part ∈ if word = [] then [] else [word.reverse]) : IsWord part := by
  split at hPart
  · cases hPart
  · rename_i hSome
    rw [List.mem_singleton.mp hPart]
    exact ⟨mt List.reverse_eq_nil_iff.mp hSome, fun c hC => hWord c (List.mem_reverse.mp hC)⟩

/-- Every piece is a word. -/
theorem isWord_of_mem_wordsFrom {word text part : List Char}
    (hWord : ∀ c ∈ word, isSpace c = false) (hPart : part ∈ wordsFrom word text) :
    IsWord part := by
  induction text generalizing word with
  | nil => exact isWord_of_flush hWord hPart
  | cons c rest ih =>
      have hNil : ∀ d ∈ ([] : List Char), isSpace d = false := fun d hD => nomatch hD
      rw [wordsFrom] at hPart
      cases hSpace : isSpace c with
      | true =>
          rw [hSpace, if_pos rfl] at hPart
          rcases List.mem_append.mp hPart with hHead | hRest
          · exact isWord_of_flush hWord hHead
          · exact ih hNil hRest
      | false =>
          rw [hSpace, if_neg Bool.false_ne_true] at hPart
          refine ih (fun d hD => ?_) hPart
          rcases List.mem_cons.mp hD with rfl | hOld
          · exact hSpace
          · exact hWord d hOld

/-- The words of a text have no blanks in them and are not empty. -/
theorem isWord_of_mem_words {text word : List Char} (hWord : word ∈ wordsFrom [] text) :
    IsWord word := by
  have hNil : ∀ c ∈ ([] : List Char), isSpace c = false := fun c hC => nomatch hC
  exact isWord_of_mem_wordsFrom hNil hWord

/-- Words joined by a blank are found again. -/
theorem wordsFrom_intercalate {words : List (List Char)} (hWords : ∀ word ∈ words, IsWord word) :
    wordsFrom [] ([' '].intercalate words) = words := by
  induction words with
  | nil => rfl
  | cons word rest ih =>
      obtain ⟨hSome, hFree⟩ := hWords word List.mem_cons_self
      have hRest := ih fun other hOther => hWords other (List.mem_cons_of_mem word hOther)
      cases rest with
      | nil =>
          have hAlone := wordsFrom_append hFree [] []
          rw [List.intercalate_singleton, ← List.append_nil word, hAlone, wordsFrom,
            List.append_nil, if_neg (mt List.reverse_eq_nil_iff.mp hSome), List.reverse_reverse,
            List.append_nil]
      | cons second others =>
          have hBlank : isSpace ' ' = true := by decide
          rw [List.intercalate_cons_cons, List.append_assoc, wordsFrom_append hFree,
            List.singleton_append, wordsFrom, hBlank, if_pos rfl, hRest, List.append_nil,
            if_neg (mt List.reverse_eq_nil_iff.mp hSome), List.reverse_reverse]
          rfl

/-- A normalised goal has the words of the goal itself. -/
theorem splitWords_normalizeGoal (goal : String) :
    splitWords (normalizeGoal goal) = splitWords goal := by
  have hChars : (normalizeGoal goal).toList = [' '].intercalate (wordsFrom [] goal.toList) := by
    have hParts : (splitWords goal).map String.toList = wordsFrom [] goal.toList := by
      rw [splitWords, List.map_map]
      exact List.map_id'' (fun word => String.toList_ofList) _
    rw [normalizeGoal, String.toList_intercalate, hParts]
    rfl
  rw [splitWords, hChars, wordsFrom_intercalate fun word hWord => isWord_of_mem_words hWord,
    splitWords]

/-- A normalised goal is kept as it is. -/
theorem normalizeGoal_normalizeGoal (goal : String) :
    normalizeGoal (normalizeGoal goal) = normalizeGoal goal := by
  rw [normalizeGoal, splitWords_normalizeGoal, ← normalizeGoal]

end Goal

section Database

variable {Id Row : Type}

/-- The tables of `checkpoints.db`, with the thread of each row. A checkpoint is where
the graph stands, the writes of a thread hold the draft of its interrupt. A table is
missing until a saver has created it. -/
structure Database (Id : Type) where
  checkpoints : Option (List (String × Config Id))
  writes : Option (List (String × String))

/-- `DELETE FROM table WHERE thread_id = ?`. A missing table is passed over. -/
def deleteRows (threadId : String) (table : Option (List (String × Row))) :
    Option (List (String × Row)) :=
  table.map fun rows => rows.filter fun row => row.1 != threadId

/-- There is nothing to reset when there is no file. -/
def resetThread (threadId : String) (disk : Option (Database Id)) : Option (Database Id) :=
  disk.map fun db => ⟨deleteRows threadId db.checkpoints, deleteRows threadId db.writes⟩

/-- A saver creates the file and the tables that are missing. -/
def openSaver : Option (Database Id) → Database Id
  | none => ⟨some [], some []⟩
  | some db => ⟨some (db.checkpoints.getD []), some (db.writes.getD [])⟩

namespace Database

variable (db : Database Id) (threadId : String)

/-- The checkpoints of a thread, the oldest first. -/
def thread : List (Config Id) :=
  ((db.checkpoints.getD []).filter fun row => row.1 == threadId).map Prod.snd

/-- `checkpointer.get_tuple`: the latest checkpoint. -/
def getTuple : Option (Config Id) := (db.thread threadId).getLast?

def put (config : Config Id) : Database Id :=
  { db with checkpoints := some (db.checkpoints.getD [] ++ [(threadId, config)]) }

def putWrites (draft : String) : Database Id :=
  { db with writes := some (db.writes.getD [] ++ [(threadId, draft)]) }

end Database

end Database

section Launch

variable (hexDigest : String → String)

/-- The digest is that of SHA-1, of which eight digits are kept. -/
def makeThreadId (goal : String) : String :=
  "arm64-sim-" ++ String.ofList ((hexDigest (normalizeGoal goal)).toList.take 8)

/-- The arguments of the command line. -/
structure Arguments where
  goal : String
  reset : Bool
  deriving DecidableEq, Repr

/-- The driver between two steps of the graph. -/
structure Process (Id : Type) where
  threadId : String
  goal : String
  config : Config Id
  deriving DecidableEq

def differentGoal (threadId stored goal : String) : String :=
  "Error: checkpoint '" ++ threadId ++ "' was created for a different goal.\n" ++
    "  Stored : " ++ stored ++ "\n" ++ "  Passed : " ++ goal ++ "\n" ++
    "Pass --reset to discard it and start fresh."

variable {Id : Type}

/-- The driver up to its loop, with what the disk holds then. It exits when the thread
has a checkpoint of another goal, and resumes any other checkpoint. -/
def launch (disk : Option (Database Id)) (args : Arguments) :
    Database Id × Except String (Process Id) :=
  let goal := normalizeGoal args.goal
  let threadId := makeThreadId hexDigest goal
  let disk := if args.reset then resetThread threadId disk else disk
  let db := openSaver disk
  match db.getTuple threadId with
  | none => (db, .ok ⟨threadId, goal, start Id goal⟩)
  | some existing =>
    if existing.state.goal ≠ "" ∧ existing.state.goal ≠ goal then
      (db, .error (differentGoal threadId existing.state.goal goal))
    else (db, .ok ⟨threadId, goal, existing⟩)

end Launch

section Loop

variable {Id : Type} [DecidableEq Id] [Value Id]

inductive DriverInput where
  /-- What a node of the stream gets. -/
  | node (input : Input)
  /-- A line typed at the prompt, and the reply to the planner that it resumes. -/
  | answer (line reply : String)
  deriving DecidableEq, Repr

/-- A blank line at the prompt is asked for again. -/
def advance (settings : Settings Id) (config : Config Id) : DriverInput → Option (Config Id)
  | .node input =>
    match config.place with
    | .suspended _ => none
    | _ => step settings config input
  | .answer line reply =>
    match config.place with
    | .suspended _ =>
      if strip line = "" then some config else step settings config (.resume (strip line) reply)
    | _ => none

/-- The driver waits at a blank line, or the graph makes a step. -/
theorem step_of_advance {settings : Settings Id} {config next : Config Id} {input : DriverInput}
    (hAdvance : advance settings config input = some next) :
    (next = config ∧ ∃ shown, config.place = .suspended shown) ∨
    (∃ line reply, input = .answer line reply ∧
      step settings config (.resume (strip line) reply) = some next) ∨
    ∃ nodeInput, input = .node nodeInput ∧ step settings config nodeInput = some next := by
  unfold advance at hAdvance
  split at hAdvance
  · split at hAdvance
    · cases hAdvance
    · exact Or.inr (Or.inr ⟨_, rfl, hAdvance⟩)
  · split at hAdvance
    · rename_i shown hPlace
      split at hAdvance
      · cases hAdvance
        exact Or.inl ⟨rfl, shown, hPlace⟩
      · exact Or.inr (Or.inl ⟨_, _, rfl, hAdvance⟩)
    · cases hAdvance

/-- The graph saves where it stands. At an interrupt it saves the draft. -/
def Database.save (db : Database Id) (process : Process Id) : Database Id :=
  match process.config.place with
  | .suspended draft => db.putWrites process.threadId draft
  | _ => db.put process.threadId process.config

/-- The disk, and the processes that run on it. -/
structure System (Id : Type) where
  disk : Option (Database Id)
  processes : Nat → Option (Process Id)

abbrev SystemEvent := Restart.Event Arguments DriverInput Nat

/-- One event: a launch, a step of a process, a write to the database, or the end of a
process, be it a crash or a node that raises. What does not apply is left out, and there is
no write that the database refuses. An answer goes on from the configuration of its process,
where the program reads the latest checkpoint of the thread once more. The two are the same
while one process at a time works on a thread (`Alone.prompt`), and only then. -/
def System.next (hexDigest : String → String) (settings : Settings Id) (system : System Id) :
    SystemEvent → System Id
  | .launch pid args =>
    match system.processes pid with
    | some _ => system
    | none =>
      let (db, process) := launch hexDigest system.disk args
      ⟨some db, Function.update system.processes pid process.toOption⟩
  | .feed pid input =>
    match system.processes pid with
    | none => system
    | some process =>
      match advance settings process.config input with
      | none => system
      | some config =>
        { system with
          processes := Function.update system.processes pid (some { process with config }) }
  | .save pid =>
    match system.processes pid with
    | none => system
    | some process => { system with disk := some ((openSaver system.disk).save process) }
  | .crash pid => { system with processes := Function.update system.processes pid none }

end Loop

section Refinement

open Restart (World Machine)

variable {Id : Type}

/-- Opening the database makes an empty one where there is none, and changes nothing else. -/
theorem thread_openSaver (disk : Option (Database Id)) (threadId : String) :
    (openSaver disk).thread threadId = (disk.map fun db => db.thread threadId).getD [] := by
  cases disk with
  | none => rfl
  | some db => rfl

/-- After a reset the thread has no checkpoint. -/
theorem thread_resetThread_self (disk : Option (Database Id)) (threadId : String) :
    (openSaver (resetThread threadId disk)).thread threadId = [] := by
  rcases disk with _ | ⟨checkpoints, writes⟩
  · rfl
  · cases checkpoints with
    | none => rfl
    | some rows =>
        simp [resetThread, openSaver, deleteRows, Database.thread, List.filter_filter]

/-- A reset leaves the other threads. -/
theorem thread_resetThread_of_ne (disk : Option (Database Id)) {threadId other : String}
    (hOther : other ≠ threadId) :
    (openSaver (resetThread threadId disk)).thread other = (openSaver disk).thread other := by
  rcases disk with _ | ⟨checkpoints, writes⟩
  · rfl
  · cases checkpoints with
    | none => rfl
    | some rows =>
        have hKept : ∀ row ∈ rows,
            ((row.1 == other) && (row.1 != threadId)) = (row.1 == other) := by
          intro row _
          by_cases hRow : row.1 = other
          · simp [hRow, hOther]
          · simp [hRow]
        simp only [resetThread, openSaver, deleteRows, Database.thread, Option.map_some,
          Option.getD_some, List.filter_filter, List.filter_congr hKept]

theorem thread_put_self (db : Database Id) (threadId : String) (config : Config Id) :
    (db.put threadId config).thread threadId = db.thread threadId ++ [config] := by
  simp [Database.put, Database.thread]

/-- A checkpoint is stored under its own thread only. -/
theorem thread_put_of_ne (db : Database Id) {threadId other : String} (hOther : other ≠ threadId)
    (config : Config Id) : (db.put threadId config).thread other = db.thread other := by
  simp [Database.put, Database.thread, hOther.symm]

variable [DecidableEq Id] [Value Id] (hexDigest : String → String) (settings : Settings Id)

/-- The driver as a machine that is stored and picked up again. A running one has the
goal it was launched with. -/
def driver : Machine String Arguments DriverInput (Config Id) (String × Config Id) where
  key args := makeThreadId hexDigest (normalizeGoal args.goal)
  clears := Arguments.reset
  enter args latest :=
    let goal := normalizeGoal args.goal
    match latest with
    | none => some (goal, start Id goal)
    | some existing =>
      if existing.state.goal ≠ "" ∧ existing.state.goal ≠ goal then none else some (goal, existing)
  step := fun (goal, config) input => (advance settings config input).map (goal, ·)
  saves := fun (_, config) =>
    match config.place with
    | .suspended _ => none
    | _ => some config

/-- The threads on the disk, and the processes. -/
def System.view (system : System Id) : World String (Config Id) (String × Config Id) Nat where
  store threadId := (openSaver system.disk).thread threadId
  running pid := (system.processes pid).map fun p => (p.threadId, p.goal, p.config)

omit [DecidableEq Id] [Value Id] in
theorem view_update (system : System Id) (pid : Nat) (process : Option (Process Id)) :
    (fun other => (Function.update system.processes pid process other).map
      fun p => (p.threadId, p.goal, p.config)) =
    Function.update system.view.running pid
      (process.map fun p => (p.threadId, p.goal, p.config)) := by
  funext other
  by_cases hPid : other = pid
  · rw [hPid, Function.update_self, Function.update_self]
  · rw [Function.update_of_ne hPid, Function.update_of_ne hPid]
    rfl

/-- What saving adds to the thread: the configuration of the process, but nothing while it
waits at a prompt. -/
theorem thread_save_self (db : Database Id) (process : Process Id) :
    (db.save process).thread process.threadId = db.thread process.threadId ++
      ((driver hexDigest settings).saves (process.goal, process.config)).toList := by
  obtain ⟨threadId, goal, place, state⟩ := process
  cases place with
  | suspended draft => exact (List.append_nil _).symm
  | _ => exact thread_put_self db threadId _

omit [DecidableEq Id] [Value Id] in
theorem thread_save_of_ne (db : Database Id) (process : Process Id) {threadId : String}
    (hThread : threadId ≠ process.threadId) :
    (db.save process).thread threadId = db.thread threadId := by
  unfold Database.save
  split
  · rfl
  · exact thread_put_of_ne db hThread _

/-- The disk from which a launch reads its checkpoint. -/
def launchDisk (disk : Option (Database Id)) (args : Arguments) : Option (Database Id) :=
  if args.reset then resetThread (makeThreadId hexDigest (normalizeGoal args.goal)) disk else disk

omit [DecidableEq Id] [Value Id] in
theorem launch_fst (disk : Option (Database Id)) (args : Arguments) :
    (launch hexDigest disk args).1 = openSaver (launchDisk hexDigest disk args) := by
  unfold launch launchDisk
  dsimp only
  split
  · rfl
  · split <;> rfl

/-- Where a launched process stands, seen through the abstract machine. -/
theorem launch_snd (disk : Option (Database Id)) (args : Arguments) :
    ((launch hexDigest disk args).2.toOption.map fun p => (p.threadId, p.goal, p.config)) =
      ((driver hexDigest settings).enter args ((openSaver (launchDisk hexDigest disk args)).getTuple
        (makeThreadId hexDigest (normalizeGoal args.goal)))).map
          fun state => (makeThreadId hexDigest (normalizeGoal args.goal), state) := by
  unfold launch launchDisk driver
  dsimp only
  split
  · rfl
  · split <;> rfl

/-- What a launch leaves stored for each thread, seen through the abstract machine. -/
theorem thread_launchDisk (system : System Id) (args : Arguments) (threadId : String) :
    (openSaver (launchDisk hexDigest system.disk args)).thread threadId =
      system.view.cleared (driver hexDigest settings) args threadId := by
  unfold launchDisk World.cleared
  cases hReset : args.reset with
  | false =>
      have hClears : (driver hexDigest settings).clears args = false := hReset
      rw [hClears, if_neg Bool.false_ne_true, if_neg Bool.false_ne_true]
      rfl
  | true =>
      have hClears : (driver hexDigest settings).clears args = true := hReset
      rw [hClears, if_pos rfl, if_pos rfl]
      have hKey : (driver hexDigest settings).key args =
          makeThreadId hexDigest (normalizeGoal args.goal) := rfl
      rw [hKey]
      by_cases hThread : threadId = makeThreadId hexDigest (normalizeGoal args.goal)
      · rw [hThread, thread_resetThread_self, Function.update_self]
      · rw [thread_resetThread_of_ne _ hThread, Function.update_of_ne hThread]
        rfl

omit [DecidableEq Id] [Value Id] in
theorem view_running {system : System Id} {pid : Nat} {process : Option (Process Id)}
    (hPid : system.processes pid = process) :
    system.view.running pid = process.map fun p => (p.threadId, p.goal, p.config) :=
  congrArg (Option.map fun p : Process Id => (p.threadId, p.goal, p.config)) hPid

/-- Tables and processes behave as the machine does. -/
theorem view_next (system : System Id) (event : SystemEvent) :
    (system.next hexDigest settings event).view =
      system.view.next (driver hexDigest settings) event := by
  cases event with
  | launch pid args =>
      cases hPid : system.processes pid with
      | some process =>
          have hView := view_running hPid
          rw [Option.map_some] at hView
          simp only [System.next, hPid, World.next, hView]
      | none =>
          have hView := view_running hPid
          rw [Option.map_none] at hView
          have hStore := thread_launchDisk hexDigest settings system args
          have hLatest := launch_snd hexDigest settings system.disk args
          rw [Database.getTuple, hStore] at hLatest
          simp only [System.next, hPid, World.next, hView]
          refine congrArg₂ World.mk (funext fun threadId => ?_) ?_
          · rw [launch_fst, thread_openSaver, Option.map_some, Option.getD_some, hStore]
          · rw [view_update, hLatest]
            rfl
  | feed pid input =>
      cases hPid : system.processes pid with
      | none =>
          have hView := view_running hPid
          rw [Option.map_none] at hView
          simp only [System.next, hPid, World.next, hView]
      | some process =>
          have hView := view_running hPid
          rw [Option.map_some] at hView
          have hStep : (driver hexDigest settings).step (process.goal, process.config) input =
              (advance settings process.config input).map fun config =>
                (process.goal, config) := rfl
          cases hAdvance : advance settings process.config input with
          | none =>
              rw [hAdvance, Option.map_none] at hStep
              simp only [System.next, hPid, hAdvance, World.next, hView, hStep]
          | some config =>
              rw [hAdvance, Option.map_some] at hStep
              simp only [System.next, hPid, hAdvance, World.next, hView, hStep]
              exact congrArg₂ World.mk rfl (view_update system pid _)
  | save pid =>
      cases hPid : system.processes pid with
      | none =>
          have hView := view_running hPid
          rw [Option.map_none] at hView
          simp only [System.next, hPid, World.next, hView]
      | some process =>
          have hView := view_running hPid
          rw [Option.map_some] at hView
          simp only [System.next, hPid, World.next, hView]
          refine congrArg₂ World.mk (funext fun threadId => ?_) rfl
          rw [thread_openSaver, Option.map_some, Option.getD_some]
          by_cases hThread : threadId = process.threadId
          · rw [hThread, Function.update_self, thread_save_self hexDigest settings]
            rfl
          · rw [Function.update_of_ne hThread, thread_save_of_ne _ _ hThread]
            rfl
  | crash pid => exact congrArg₂ World.mk rfl (view_update system pid none)

end Refinement

end Orchestrator
