import RustyArm64.Orchestrator.QueueReplay
import RustyArm64.Orchestrator.Threads

/-! The working tree under the driver. The tools and the tests edit it and the queue manager
commits it, and a process may die in the middle of each. As long as one terminal is used for
one thread, no tree is committed but one that a passing test run has left. -/
namespace Orchestrator

open Replay (replay Along)

section Tree

variable {Id Repo Tree : Type} [DecidableEq Id] [Value Id]

/-- What the tools or a test run do to a repository. They write what files they like in the
working tree, but never run git or write to its directory. -/
structure Edit (git : Git Repo Tree) where
  run : Repo → Repo
  history : ∀ repo, git.history (run repo) = git.history repo

/-- The driver, the repository, and the trees that `cargo test` has left where it passed. -/
structure Workspace (Id Repo Tree : Type) where
  system : System Id
  repo : Repo
  passed : List Tree

inductive WorkEvent (git : Git Repo Tree) where
  | launch (pid : Nat) (args : Arguments)
  | save (pid : Nat)
  | crash (pid : Nat)
  /-- A node is executed. The edit is that of the tools or of the test run, and the commit
  may be refused. -/
  | execute (pid : Nat) (input : DriverInput) (edit : Edit git) (refused : Bool)
  /-- The process dies in the execution, and with it what it has started. The edit has been
  made by then, and the queue manager has made this number of calls. -/
  | interrupt (pid : Nat) (input : DriverInput) (edit : Edit git) (calls : Nat)

/-- The event is an execution whose commit is refused. -/
def WorkEvent.refuses {git : Git Repo Tree} : WorkEvent git → Bool
  | .execute _ _ _ refused => refused
  | _ => false

variable (hexDigest : String → String) (settings : Settings Id) {git : Git Repo Tree}

/-- The queue manager is given the status that git prints. -/
def Reads (git : Git Repo Tree) (repo : Repo) : DriverInput → Prop
  | .node (.gitStatus stdout) => stdout = git.status repo
  | _ => True

instance (git : Git Repo Tree) (repo : Repo) : (input : DriverInput) →
    Decidable (Reads git repo input)
  | .node (.gitStatus _) => inferInstanceAs (Decidable (_ = _))
  | .node (.draft _) => .isTrue trivial
  | .node (.resume _ _) => .isTrue trivial
  | .node (.coder _ _) => .isTrue trivial
  | .node (.tools _) => .isTrue trivial
  | .node (.cargo _) => .isTrue trivial
  | .node .gitDiff => .isTrue trivial
  | .answer _ _ => .isTrue trivial

/-- The repository after an execution of the queue manager that returns. The node goes on
when its commit is refused, by a hook or for want of an identity, say. What was added stays
added then. -/
def managedRepo (settings : Settings Id) (state : WorkflowState Id) (git : Git Repo Tree)
    (refused : Bool) (repo : Repo) : Repo :=
  if refused then crashedRepo settings state git repo 2 else completedRepo settings state git repo

/-- What a node does outside of the workflow. -/
def Workspace.effect (git : Git Repo Tree) (ws : Workspace Id Repo Tree) (config : Config Id)
    (edit manage : Repo → Repo) : DriverInput → Workspace Id Repo Tree
  | .node input =>
    match config.place, input with
    | .coderTools, .tools _ => { ws with repo := edit ws.repo }
    | .tester, .cargo outcome =>
      let repo := edit ws.repo
      let left := if outcome.passed then [git.worktree repo] else []
      { ws with repo := repo, passed := ws.passed ++ left }
    | .queueManager, .gitStatus _ => { ws with repo := manage ws.repo }
    | _, _ => ws
  | .answer _ _ => ws

def Workspace.step (ws : Workspace Id Repo Tree) : WorkEvent git → Option (Workspace Id Repo Tree)
  | .launch pid args =>
    some { ws with system := ws.system.next hexDigest settings (.launch pid args) }
  | .save pid => some { ws with system := ws.system.next hexDigest settings (.save pid) }
  | .crash pid => some { ws with system := ws.system.next hexDigest settings (.crash pid) }
  | .execute pid input edit refused =>
    (ws.system.processes pid).bind fun process =>
      (advance settings process.config input).bind fun _ =>
        if Reads git ws.repo input then
          some { ws.effect git process.config edit.run
              (managedRepo settings process.config.state git refused) input with
            system := ws.system.next hexDigest settings (.feed pid input) }
        else none
  | .interrupt pid input edit calls =>
    (ws.system.processes pid).map fun process =>
      { ws.effect git process.config edit.run
          (fun repo => crashedRepo settings process.config.state git repo calls) input with
        system := ws.system.next hexDigest settings (.crash pid) }

/-- Nothing has been launched or tested. -/
def Workspace.start (Id : Type) {Repo : Type} (Tree : Type) (repo : Repo) :
    Workspace Id Repo Tree :=
  ⟨System.empty, repo, []⟩

end Tree

section Records

variable {Id : Type} [DecidableEq Id] [Value Id] {hexDigest : String → String}
  {settings : Settings Id}

/-- The queue manager has completed the last task. -/
def Delivered (config : Config Id) : Prop :=
  config.place = .finished ∧ config.state.todoTasks = [] ∧ config.state.completedTasks ≠ []

omit [Value Id] in
instance (config : Config Id) : Decidable (Delivered config) :=
  inferInstanceAs (Decidable (_ ∧ _))

/-- A process comes to the queue manager from a test that has passed. -/
theorem passing_of_advance {config next : Config Id} {input : DriverInput}
    (hAdvance : advance settings config input = some next) (hPlace : next.place = .queueManager) :
    config.place = .tester ∧ ∃ outcome, input = .node (.cargo outcome) ∧ outcome.passed = true := by
  have hEdge : ∀ {input : Input}, step settings config input = some next →
      config.place = .tester ∧ ∃ outcome, input = .cargo outcome ∧ outcome.passed = true := by
    intro input hStep
    have hTester := tester_of_tested hStep (Or.inl hPlace)
    cases moves_of_step hStep with
    | test state outcome =>
        exact ⟨rfl, outcome, rfl, (placeAfterTest_eq_queueManager state).mp hPlace⟩
    | _ => cases hTester
  rcases step_of_advance hAdvance with ⟨rfl, shown, hShown⟩ | ⟨line, reply, -, hStep⟩ |
    ⟨nodeInput, rfl, hStep⟩
  · exact Place.noConfusion (hShown.symm.trans hPlace)
  · obtain ⟨-, outcome, hCargo, -⟩ := hEdge hStep
    cases hCargo
  · obtain ⟨hTester, outcome, rfl, hPassed⟩ := hEdge hStep
    exact ⟨hTester, outcome, rfl, hPassed⟩

/-- While the workflow goes on, a queue is empty only if nothing was ever enqueued. -/
theorem completed_of_empty_queue {goal : String} {inputs : List Input} {config : Config Id}
    (hRun : runOf settings goal inputs = some config) (hPlace : config.place.executes = true)
    (hBusy : config.place ≠ .finished) (hTodo : config.state.todoTasks = []) :
    config.state.completedTasks = [] := by
  obtain ⟨a, hApproved⟩ := approved_of_executes hRun hPlace
  have hTasks := hApproved.conserved
  rw [hApproved.busy hBusy hTodo] at hTasks
  exact (List.append_eq_nil_iff.mp hTasks).1

/-- The last task is completed by the queue manager. -/
theorem delivering_of_advance {goal : String} {inputs : List Input} {config next : Config Id}
    {input : DriverInput} (hRun : runOf settings goal inputs = some config)
    (hAdvance : advance settings config input = some next) (hDone : Delivered next) :
    config.place = .queueManager ∧ (∃ task rest, config.state.todoTasks = task :: rest) ∧
      ∃ stdout, input = .node (.gitStatus stdout) := by
  obtain ⟨hPlace, hTodo, hSome⟩ := hDone
  have hMove : ∀ {input : Input}, step settings config input = some next →
      config.place = .queueManager ∧ (∃ task rest, config.state.todoTasks = task :: rest) ∧
        ∃ stdout, input = .gitStatus stdout := by
    intro input hStep
    have hEnds := place_of_finished hStep hPlace
    cases moves_of_step hStep with
    | nextTask state gitStatus task rest hQueue => exact ⟨rfl, ⟨task, rest, hQueue⟩, gitStatus, rfl⟩
    | emptyQueue =>
        exact absurd (completed_of_empty_queue hRun rfl Place.noConfusion hTodo) hSome
    | giveUp => exact absurd (completed_of_empty_queue hRun rfl Place.noConfusion hTodo) hSome
    | _ => rcases hEnds with hEnds | hEnds <;> cases hEnds
  rcases step_of_advance hAdvance with ⟨rfl, shown, hShown⟩ | ⟨line, reply, -, hStep⟩ |
    ⟨nodeInput, rfl, hStep⟩
  · exact Place.noConfusion (hShown.symm.trans hPlace)
  · obtain ⟨-, -, stdout, hGitStatus⟩ := hMove hStep
    cases hGitStatus
  · obtain ⟨hQueue, hTasks, stdout, rfl⟩ := hMove hStep
    exact ⟨hQueue, hTasks, stdout, rfl⟩

end Records

section Commits

variable {Id Repo Tree : Type} [DecidableEq Id] [Value Id] {git : Git Repo Tree}

/-- The tree stays, also as the last commit, and the history gains it or nothing. -/
structure Commits (git : Git Repo Tree) (repo after : Repo) : Prop where
  worktree : git.worktree after = git.worktree repo
  head : git.head repo = git.worktree repo → git.head after = git.worktree repo
  history : ∀ entry ∈ git.history after, entry ∈ git.history repo ∨ entry.1 = git.worktree repo

theorem Commits.refl (repo : Repo) : Commits git repo repo :=
  ⟨rfl, fun hHead => hHead, fun _ hEntry => Or.inl hEntry⟩

/-- One execution of the queue manager makes one commit at most, of the working tree. -/
theorem commits_completed (hGit : git.Documented) (settings : Settings Id)
    (state : WorkflowState Id) (repo : Repo) :
    Commits git repo (completedRepo settings state git repo) := by
  cases hTodo : state.todoTasks with
  | nil =>
      have hSame : completedRepo settings state git repo = repo := by
        rw [completedRepo, AtLeastOnce.complete, queueManagerCalls, hTodo]
        rfl
      rw [hSame]
      exact Commits.refl repo
  | cons task rest =>
      obtain ⟨hTree, hHead, hDirty, hClean⟩ := completedRepo_spec settings hTodo hGit repo
      refine ⟨hTree, fun _ => hHead, fun entry hEntry => ?_⟩
      by_cases hSame : git.worktree repo = git.head repo
      · rw [hClean hSame] at hEntry
        exact Or.inl hEntry
      · rw [hDirty hSame] at hEntry
        rcases List.mem_append.mp hEntry with hOld | hNew
        · exact Or.inl hOld
        · rw [List.mem_singleton.mp hNew]
          exact Or.inr rfl

/-- So does one that dies on the way, wherever it dies. -/
theorem commits_crashed (hGit : git.Documented) (settings : Settings Id)
    (state : WorkflowState Id) (repo : Repo) (calls : Nat) :
    Commits git repo (crashedRepo settings state git repo calls) := by
  cases hTodo : state.todoTasks with
  | nil =>
      have hSame : crashedRepo settings state git repo calls = repo := by
        rw [crashedRepo, AtLeastOnce.crash, queueManagerCalls, hTodo]
        dsimp only
        rw [List.take_nil]
        rfl
      rw [hSame]
      exact Commits.refl repo
  | cons task rest =>
      rcases crashedRepo_cases settings git hTodo repo calls with hSame | hAdded | hDone
      · rw [hSame]
        exact Commits.refl repo
      · rw [hAdded]
        refine ⟨hGit.addAll_worktree repo, fun hHead => ?_, fun entry hEntry => Or.inl ?_⟩
        · rw [hGit.addAll_head, hHead]
        · rwa [hGit.addAll_history] at hEntry
      · rw [hDone]
        exact commits_completed hGit settings state repo

/-- Refused or not, an execution adds one commit to the history at most. -/
theorem commits_managed (hGit : git.Documented) (settings : Settings Id)
    (state : WorkflowState Id) (refused : Bool) (repo : Repo) :
    Commits git repo (managedRepo settings state git refused repo) := by
  cases refused with
  | true => exact commits_crashed hGit settings state repo 2
  | false => exact commits_completed hGit settings state repo

end Commits

section Supervision

variable {Id Repo Tree : Type} (hexDigest : String → String) (git : Git Repo Tree)
  (threadId : String) (terminal : Nat)

/-- The tools and the tests run behind a checkpoint that was saved. -/
def SavedBehind (ws : Workspace Id Repo Tree) (pid : Nat) : Prop :=
  ∀ process ∈ ws.system.processes pid,
    process.config.place = .coderTools ∨ process.config.place = .tester →
      (openSaver ws.system.disk).getTuple threadId = some process.config

instance [DecidableEq Id] (ws : Workspace Id Repo Tree) (pid : Nat) :
    Decidable (SavedBehind threadId ws pid) :=
  inferInstanceAs (Decidable (∀ process ∈ ws.system.processes pid, _ → _))

/-- All drivers are launched at one terminal and for one thread. -/
def OneDriver (ws : Workspace Id Repo Tree) : WorkEvent git → Prop
  | .launch pid args => pid = terminal ∧ makeThreadId hexDigest (normalizeGoal args.goal) = threadId
  | .save _ => True
  | .crash _ => True
  | .execute pid _ _ _ => SavedBehind threadId ws pid
  | .interrupt pid _ _ _ => SavedBehind threadId ws pid

instance [DecidableEq Id] (ws : Workspace Id Repo Tree) : (event : WorkEvent git) →
    Decidable (OneDriver hexDigest git threadId terminal ws event)
  | .launch _ _ => inferInstanceAs (Decidable (_ ∧ _))
  | .save _ => .isTrue trivial
  | .crash _ => .isTrue trivial
  | .execute pid _ _ _ => inferInstanceAs (Decidable (SavedBehind threadId ws pid))
  | .interrupt pid _ _ _ => inferInstanceAs (Decidable (SavedBehind threadId ws pid))

/-- What a configuration relies on: before a commit the tree has passed, and at the end it
is the last commit, too, if commits are kept. -/
structure Relies (git : Git Repo Tree) (kept : Prop) (repo : Repo) (passed : List Tree)
    (config : Config Id) : Prop where
  passed : config.place = .queueManager ∨ Delivered config → git.worktree repo ∈ passed
  committed : kept → Delivered config → git.head repo = git.worktree repo

/-- Every configuration that runs or may be picked up has what it relies on, and all that
was committed has passed. -/
structure Supervised (kept : Prop) (before : List (Tree × String)) (ws : Workspace Id Repo Tree) :
    Prop where
  one : ∀ {pid process}, ws.system.processes pid = some process → pid = terminal
  running : ∀ {pid process}, ws.system.processes pid = some process →
    Relies git kept ws.repo ws.passed process.config
  stored : ∀ {config}, (openSaver ws.system.disk).getTuple threadId = some config →
    Relies git kept ws.repo ws.passed config
  history : ∀ entry ∈ git.history ws.repo, entry ∈ before ∨ entry.1 ∈ ws.passed

variable {hexDigest git threadId terminal} {kept : Prop} {before : List (Tree × String)}
  {ws : Workspace Id Repo Tree}

/-- Away from the queue manager and from the end there is nothing to rely on. -/
theorem relies_elsewhere {repo : Repo} {passed : List Tree} {config : Config Id}
    (hPlace : config.place ≠ .queueManager) (hEnd : config.place ≠ .finished) :
    Relies git kept repo passed config where
  passed h := h.elim (fun hQueue => absurd hQueue hPlace) fun hDone => absurd hDone.1 hEnd
  committed _ hDone := absurd hDone.1 hEnd

/-- What the queue manager finds when it is entered it still finds after a commit. -/
theorem Relies.manage {repo after : Repo} {passed : List Tree} {config : Config Id}
    (h : Relies git kept repo passed config) (hCommits : Commits git repo after) :
    Relies git kept after passed config where
  passed hAt := hCommits.worktree.symm ▸ h.passed hAt
  committed hKept hDone :=
    (hCommits.head (h.committed hKept hDone)).trans hCommits.worktree.symm

theorem Relies.pass {repo : Repo} {passed : List Tree} {config : Config Id}
    (h : Relies git kept repo passed config) (left : List Tree) :
    Relies git kept repo (passed ++ left) config where
  passed hAt := List.mem_append_left _ (h.passed hAt)
  committed := h.committed

/-- A commit changes nothing for those who rely on the tree, and what it adds has passed. -/
theorem Supervised.manage (h : Supervised git threadId terminal kept before ws) {after : Repo}
    (hCommits : Commits git ws.repo after) (hPassed : git.worktree ws.repo ∈ ws.passed) :
    Supervised git threadId terminal kept before { ws with repo := after } where
  one := h.one
  running := fun hPid => (h.running hPid).manage hCommits
  stored := fun hLatest => (h.stored hLatest).manage hCommits
  history := by
    intro entry hEntry
    rcases hCommits.history entry hEntry with hOld | hNew
    · exact h.history entry hOld
    · exact Or.inr (hNew ▸ hPassed)

/-- Another tested tree takes nothing away. -/
theorem Supervised.pass (h : Supervised git threadId terminal kept before ws) (left : List Tree) :
    Supervised git threadId terminal kept before { ws with passed := ws.passed ++ left } where
  one := h.one
  running := fun hPid => (h.running hPid).pass left
  stored := fun hLatest => (h.stored hLatest).pass left
  history := fun entry hEntry => (h.history entry hEntry).imp_right (List.mem_append_left _)

/-- The tools and the tests edit the tree while nobody relies on it. -/
theorem Supervised.edit (h : Supervised git threadId terminal kept before ws) {pid : Nat}
    {process : Process Id} (hPid : ws.system.processes pid = some process)
    (hPlace : process.config.place = .coderTools ∨ process.config.place = .tester)
    (hSaved : (openSaver ws.system.disk).getTuple threadId = some process.config)
    (edit : Edit git) :
    Supervised git threadId terminal kept before { ws with repo := edit.run ws.repo } := by
  have hFree : Relies git kept (edit.run ws.repo) ws.passed process.config := by
    rcases hPlace with hTools | hTester
    · exact relies_elsewhere (hTools ▸ Place.noConfusion) (hTools ▸ Place.noConfusion)
    · exact relies_elsewhere (hTester ▸ Place.noConfusion) (hTester ▸ Place.noConfusion)
  refine ⟨h.one, fun hOther => ?_, fun hLatest => ?_, fun entry hEntry => ?_⟩
  · dsimp only at hOther
    rw [h.one hOther, ← h.one hPid, hPid] at hOther
    cases hOther
    exact hFree
  · dsimp only at hLatest
    rw [hSaved] at hLatest
    cases hLatest
    exact hFree
  · dsimp only at hEntry
    rw [edit.history] at hEntry
    exact h.history entry hEntry

/-- What a node does to the repository keeps the invariant, behind a saved checkpoint. -/
theorem Supervised.effect (h : Supervised git threadId terminal kept before ws) {pid : Nat}
    {process : Process Id} (hPid : ws.system.processes pid = some process)
    (hSaved : SavedBehind threadId ws pid) (edit : Edit git) {manage : Repo → Repo}
    (hManage : ∀ repo, Commits git repo (manage repo)) (input : DriverInput) :
    Supervised git threadId terminal kept before
      (ws.effect git process.config edit.run manage input) := by
  unfold Workspace.effect
  split
  · split
    · rename_i hPlace
      exact h.edit hPid (Or.inl hPlace) (hSaved process hPid (Or.inl hPlace)) edit
    · rename_i hPlace
      exact (h.edit hPid (Or.inr hPlace) (hSaved process hPid (Or.inr hPlace)) edit).pass _
    · rename_i hPlace
      exact h.manage (hManage ws.repo) ((h.running hPid).passed (Or.inl hPlace))
    · exact h
  · exact h

theorem effect_system (git : Git Repo Tree) (ws : Workspace Id Repo Tree) (config : Config Id)
    (edit manage : Repo → Repo) (input : DriverInput) :
    (ws.effect git config edit manage input).system = ws.system := by
  unfold Workspace.effect
  split
  · split <;> rfl
  · rfl

variable [DecidableEq Id] [Value Id] {settings : Settings Id}

/-- An event of the driver, if a process that comes to the queue manager by it has passed. -/
theorem Supervised.next (h : Supervised git threadId terminal kept before ws) {event : SystemEvent}
    (hLaunch : ∀ pid args, event = .launch pid args → pid = terminal ∧
      makeThreadId hexDigest (normalizeGoal args.goal) = threadId)
    (hFeed : ∀ pid input prior config, event = .feed pid input →
      ws.system.processes pid = some prior → advance settings prior.config input = some config →
      Relies git kept ws.repo ws.passed config) :
    Supervised git threadId terminal kept before
      { ws with system := ws.system.next hexDigest settings event } where
  one := by
    intro pid process hPid
    rcases process_of_next hPid with hOld | ⟨args, hEvent, -⟩ | ⟨_, prior, -, hOld, -⟩
    · exact h.one hOld
    · exact (hLaunch pid args hEvent).1
    · exact h.one hOld
  running := by
    intro pid process hPid
    rcases process_of_next hPid with hOld | ⟨args, hEvent, hThread, hFrom⟩ |
      ⟨input, prior, hEvent, hPrior, -, hAdvance⟩
    · exact h.running hOld
    · rcases hFrom with hPlanner | hLatest
      · exact relies_elsewhere (hPlanner ▸ Place.noConfusion) (hPlanner ▸ Place.noConfusion)
      · rw [← hThread, (hLaunch _ _ hEvent).2] at hLatest
        exact h.stored hLatest
    · exact hFeed pid input prior process.config hEvent hPrior hAdvance
  stored := by
    intro config hLatest
    rcases getTuple_of_next hLatest with hOld | ⟨pid, process, -, hPid, -, hConfig⟩
    · exact h.stored hOld
    · exact hConfig ▸ h.running hPid
  history := h.history

/-- A configuration has what it relies on when the process comes to it. -/
theorem Relies.advance (hGit : git.Documented) {goal : String} {inputs : List Input}
    {config next : Config Id} {input : DriverInput}
    (h : Relies git kept ws.repo ws.passed config)
    (hRun : runOf settings goal inputs = some config)
    (hAdvance : advance settings config input = some next) (edit : Repo → Repo) {refused : Bool}
    (hKept : kept → refused = false) {after : Workspace Id Repo Tree}
    (hAfter : after =
      ws.effect git config edit (managedRepo settings config.state git refused) input) :
    Relies git kept after.repo after.passed next := by
  have hDelivers : Delivered next → (kept → git.head after.repo = git.worktree after.repo) ∧
      git.worktree after.repo ∈ after.passed := by
    intro hDone
    obtain ⟨hQueue, ⟨task, rest, hTodo⟩, stdout, rfl⟩ := delivering_of_advance hRun hAdvance hDone
    simp only [Workspace.effect, hQueue] at hAfter
    have hTree := (commits_managed hGit settings config.state refused ws.repo).worktree
    refine ⟨fun hYes => ?_, ?_⟩
    · obtain ⟨-, hHead, -, -⟩ := completedRepo_spec settings hTodo hGit ws.repo
      rw [hAfter, hTree, hKept hYes]
      exact hHead
    · rw [hAfter, hTree]
      exact h.passed (Or.inl hQueue)
  refine ⟨?_, fun hYes hDone => (hDelivers hDone).1 hYes⟩
  rintro (hQueue | hDone)
  · obtain ⟨hTester, outcome, rfl, hPassed⟩ := passing_of_advance hAdvance hQueue
    simp only [Workspace.effect, hTester, hPassed, if_true] at hAfter
    rw [hAfter]
    exact List.mem_append_right _ List.mem_cons_self
  · exact (hDelivers hDone).2

/-- The driver has come to this system. -/
def Reached (hexDigest : String → String) (settings : Settings Id) (system : System Id) : Prop :=
  ∃ events : List SystemEvent, events.foldl (System.next hexDigest settings) System.empty = system

theorem Reached.next {system : System Id} (h : Reached hexDigest settings system)
    (event : SystemEvent) :
    Reached hexDigest settings (system.next hexDigest settings event) := by
  obtain ⟨events, rfl⟩ := h
  exact ⟨events ++ [event], by rw [List.foldl_append, List.foldl_cons, List.foldl_nil]⟩

theorem Reached.step (h : Reached hexDigest settings ws.system) {event : WorkEvent git}
    {next : Workspace Id Repo Tree} (hStep : ws.step hexDigest settings event = some next) :
    Reached hexDigest settings next.system := by
  cases event with
  | launch pid args =>
      cases hStep
      exact h.next (.launch pid args)
  | save pid =>
      cases hStep
      exact h.next (.save pid)
  | crash pid =>
      cases hStep
      exact h.next (.crash pid)
  | execute pid input edit refused =>
      obtain ⟨process, -, hAccepted⟩ := Option.bind_eq_some_iff.mp hStep
      obtain ⟨after, -, hReads⟩ := Option.bind_eq_some_iff.mp hAccepted
      split at hReads
      · cases hReads
        exact h.next (.feed pid input)
      · cases hReads
  | interrupt pid input edit calls =>
      obtain ⟨process, -, rfl⟩ := Option.map_eq_some_iff.mp hStep
      exact h.next (.crash pid)

/-- One event keeps the invariant: an edit, a node, a crash, a save or a launch. -/
theorem Supervised.step (hGit : git.Documented)
    (h : Supervised git threadId terminal kept before ws)
    (hReached : Reached hexDigest settings ws.system) {event : WorkEvent git}
    {next : Workspace Id Repo Tree} (hOne : OneDriver hexDigest git threadId terminal ws event)
    (hKept : kept → event.refuses = false)
    (hStep : ws.step hexDigest settings event = some next) :
    Supervised git threadId terminal kept before next := by
  cases event with
  | launch pid args =>
      cases hStep
      exact h.next (fun pid' args' hEvent => by cases hEvent; exact hOne)
        fun _ _ _ _ hEvent => nomatch hEvent
  | save pid =>
      cases hStep
      exact h.next (fun _ _ hEvent => nomatch hEvent) fun _ _ _ _ hEvent => nomatch hEvent
  | crash pid =>
      cases hStep
      exact h.next (fun _ _ hEvent => nomatch hEvent) fun _ _ _ _ hEvent => nomatch hEvent
  | execute pid input edit refused =>
      obtain ⟨process, hPid, hAccepted⟩ := Option.bind_eq_some_iff.mp hStep
      obtain ⟨after, hAdvance, hReads⟩ := Option.bind_eq_some_iff.mp hAccepted
      split at hReads
      · cases hReads
        have hEffect := h.effect hPid hOne edit
          (commits_managed hGit settings process.config.state refused) input
        have hSystem := effect_system git ws process.config edit.run
          (managedRepo settings process.config.state git refused) input
        rw [← hSystem]
        refine hEffect.next (fun _ _ hEvent => nomatch hEvent) ?_
        intro pid' input' prior config hEvent hPrior hPriorStep
        cases hEvent
        rw [hSystem, hPid] at hPrior
        cases hPrior
        obtain ⟨events, hEvents⟩ := hReached
        obtain ⟨goal, inputs, hRun⟩ := exists_run_of_process hexDigest (hEvents ▸ hPid)
        exact (h.running hPid).advance hGit hRun hPriorStep edit.run hKept rfl
      · cases hReads
  | interrupt pid input edit calls =>
      obtain ⟨process, hPid, rfl⟩ := Option.map_eq_some_iff.mp hStep
      have hEffect := h.effect hPid hOne edit
        (fun repo => commits_crashed hGit settings process.config.state repo calls) input
      rw [← effect_system git ws process.config edit.run
        (fun repo => crashedRepo settings process.config.state git repo calls) input]
      exact hEffect.next (fun _ _ hEvent => nomatch hEvent) fun _ _ _ _ hEvent => nomatch hEvent

omit [DecidableEq Id] [Value Id] in
theorem supervised_start (threadId : String) (terminal : Nat) (kept : Prop) (repo : Repo) :
    Supervised git threadId terminal kept (git.history repo) (Workspace.start Id Tree repo) where
  one := fun hPid => nomatch hPid
  running := fun hPid => nomatch hPid
  stored := fun hLatest => nomatch hLatest
  history := fun _ hEntry => Or.inl hEntry

/-- The invariant of every run with one driver on the thread. Whether commits were refused
matters for the last clause only. -/
theorem supervised_of_run (hGit : git.Documented) {repo : Repo} {events : List (WorkEvent git)}
    (hRun : replay (Workspace.step hexDigest settings) (Workspace.start Id Tree repo) events =
      some ws)
    (hOne : Along (Workspace.step hexDigest settings) (OneDriver hexDigest git threadId terminal)
      (Workspace.start Id Tree repo) events)
    (kept : Prop) (hKept : ∀ event ∈ events, kept → event.refuses = false) :
    Supervised git threadId terminal kept (git.history repo) ws := by
  have hAccepted : Along (Workspace.step hexDigest settings)
      (fun _ event => kept → event.refuses = false) (Workspace.start Id Tree repo) events :=
    Replay.along_of_forall _ _ fun event hEvent _ => hKept event hEvent
  have hAlong := hOne.and hAccepted
  have hLaw := Replay.replay_along _ (fun _ ws => Reached hexDigest settings ws.system ∧
      Supervised git threadId terminal kept (git.history repo) ws)
    ⟨⟨[], rfl⟩, supervised_start threadId terminal kept repo⟩
    (fun _ _ _ _ _ h hNow hStep => ⟨h.1.step hStep, h.2.step hGit h.1 hNow.1 hNow.2 hStep⟩)
    hRun hAlong
  exact hLaw.2

/-- What is committed has passed. Wherever a process dies, in the tools, in the tests or
between two calls of git, however often the thread is launched again, and whatever commits
are refused, every commit is of a tree that a run of `cargo test` which exited with 0 has
left. It is not said that this run began with the same tree: the tests may write files. -/
theorem commits_have_passed (hGit : git.Documented) {repo : Repo} {events : List (WorkEvent git)}
    (hRun : replay (Workspace.step hexDigest settings) (Workspace.start Id Tree repo) events =
      some ws)
    (hOne : Along (Workspace.step hexDigest settings) (OneDriver hexDigest git threadId terminal)
      (Workspace.start Id Tree repo) events) :
    ∀ entry ∈ git.history ws.repo, entry ∈ git.history repo ∨ entry.1 ∈ ws.passed :=
  (supervised_of_run hGit hRun hOne False fun _ _ hNo => hNo.elim).history

/-- Nothing is left behind. When the queue manager has completed the last task, the working
tree is the last commit and was left by a passing test run, whatever died and was launched
again before. No commit may have been refused for that: the node does not look, and the
workflow ends with its tasks completed either way. -/
theorem delivery_is_committed (hGit : git.Documented) {repo : Repo}
    {events : List (WorkEvent git)}
    (hRun : replay (Workspace.step hexDigest settings) (Workspace.start Id Tree repo) events =
      some ws)
    (hOne : Along (Workspace.step hexDigest settings) (OneDriver hexDigest git threadId terminal)
      (Workspace.start Id Tree repo) events)
    (hKept : ∀ event ∈ events, event.refuses = false) {pid : Nat} {process : Process Id}
    (hPid : ws.system.processes pid = some process) (hDone : Delivered process.config) :
    git.head ws.repo = git.worktree ws.repo ∧ git.worktree ws.repo ∈ ws.passed := by
  have hSupervised := supervised_of_run hGit hRun hOne True fun event hEvent _ =>
    hKept event hEvent
  have hRelies := hSupervised.running hPid
  exact ⟨hRelies.committed trivial hDone, hRelies.passed (Or.inr hDone)⟩

end Supervision

/-- The file is written, by a tool or by the tests. -/
def writeFile (text : String) : Edit oneFileGit where
  run repo := { repo with worktree := text }
  history _ := rfl

/-- An execution that writes nothing, and whose commit is kept if it makes one. -/
def plainly (input : DriverInput) : WorkEvent oneFileGit :=
  .execute 0 input ⟨fun repo => repo, fun _ => rfl⟩ false

/-- The process dies when a tool has written the file, and once more between `git add` and
`git commit`. The tests write the file, too. -/
def diesTwice : List (WorkEvent oneFileGit) :=
  [.launch 0 ⟨"goal", false⟩, plainly (.node (.draft "id: a")), plainly (.answer "yes" "id: a"),
    plainly (.node (.coder "m0" ⟨"m1", "", [⟨"c1"⟩]⟩)), .save 0,
    .interrupt 0 (.node (.tools [("m2", "")])) (writeFile "draft") 0, .launch 0 ⟨"goal", false⟩,
    .execute 0 (.node (.tools [("m2", "")])) (writeFile "new") false,
    plainly (.node (.coder "m0" ⟨"m3", "Done.", []⟩)), .save 0,
    .execute 0 (.node (.cargo (.exited 0 "ok" ""))) (writeFile "new, locked") false, .save 0,
    .interrupt 0 (.node (.gitStatus " M lib.rs\n")) (writeFile "") 2, .launch 0 ⟨"goal", false⟩,
    plainly (.node (.gitStatus "M  lib.rs\n"))]

def diesTwiceRun : Option (Workspace String OneFile String) :=
  replay (Workspace.step goalDigest idLineSettings)
    (Workspace.start String String (⟨"old", "old", "old", []⟩ : OneFile)) diesTwice

def diesTwiceEnd : Workspace String OneFile String := diesTwiceRun.get (by decide +kernel)

theorem diesTwice_oneDriver : Along (Workspace.step goalDigest idLineSettings)
    (OneDriver goalDigest oneFileGit "arm64-sim-db9a022b" 0)
    (Workspace.start String String (⟨"old", "old", "old", []⟩ : OneFile)) diesTwice := by
  decide +kernel

theorem commits_have_passed_diesTwice :
    oneFileGit.history diesTwiceEnd.repo = [("new, locked", "complete a: a")] ∧
    ∀ entry ∈ oneFileGit.history diesTwiceEnd.repo, entry ∈ [] ∨ entry.1 ∈ diesTwiceEnd.passed :=
  ⟨by decide +kernel,
    commits_have_passed oneFileGit_documented (Option.some_get _).symm diesTwice_oneDriver⟩

def diesTwiceProcess : Process String := (diesTwiceEnd.system.processes 0).get (by decide +kernel)

theorem delivery_is_committed_diesTwice :
    oneFileGit.head diesTwiceEnd.repo = oneFileGit.worktree diesTwiceEnd.repo ∧
    oneFileGit.worktree diesTwiceEnd.repo ∈ diesTwiceEnd.passed :=
  delivery_is_committed oneFileGit_documented (Option.some_get _).symm diesTwice_oneDriver
    (by decide) (Option.some_get _).symm (by decide +kernel : Delivered diesTwiceProcess.config)

/-- The tests write the file and pass, and git refuses the commit. -/
def commitRefused : List (WorkEvent oneFileGit) :=
  [.launch 0 ⟨"goal", false⟩, plainly (.node (.draft "id: a")), plainly (.answer "yes" "id: a"),
    plainly (.node (.coder "m0" ⟨"m1", "Done.", []⟩)), .save 0,
    .execute 0 (.node (.cargo (.exited 0 "ok" ""))) (writeFile "new") false,
    .execute 0 (.node (.gitStatus " M lib.rs\n")) (writeFile "") true]

/-- A refused commit ends the workflow all the same, and its tree stays uncommitted. -/
example :
    ((replay (Workspace.step goalDigest idLineSettings)
      (Workspace.start String String (⟨"old", "old", "old", []⟩ : OneFile))
      commitRefused).map fun ws => (oneFileGit.head ws.repo, oneFileGit.worktree ws.repo,
        (ws.system.processes 0).any fun process => decide (Delivered process.config))) =
      some ("old", "new", true) := by
  decide +kernel

/-- The digests of the goals `goal` and `other`. -/
def twoDigests (goal : String) : String :=
  if goal = "other" then "d0941e68da8f38151ff86a61fc59f7c5cf9fcaa2" else goalDigest goal

/-- The tests of the first thread pass, and the process dies. The tools of another thread
write the file, and the first thread is launched again. -/
def otherThreadWrites : List (WorkEvent oneFileGit) :=
  [.launch 0 ⟨"goal", false⟩, plainly (.node (.draft "id: a")), plainly (.answer "yes" "id: a"),
    plainly (.node (.coder "m0" ⟨"m1", "Done.", []⟩)), .save 0,
    plainly (.node (.cargo (.exited 0 "ok" ""))), .save 0, .crash 0,
    .launch 0 ⟨"other", false⟩, plainly (.node (.draft "id: b")),
    plainly (.answer "yes" "id: b"), plainly (.node (.coder "m0" ⟨"m1", "", [⟨"c1"⟩]⟩)), .save 0,
    .execute 0 (.node (.tools [("m2", "")])) (writeFile "untested") false, .crash 0,
    .launch 0 ⟨"goal", false⟩, plainly (.node (.gitStatus " M lib.rs\n"))]

/-- With two threads a tree is committed that no test has seen. -/
example :
    ((replay (Workspace.step twoDigests idLineSettings)
      (Workspace.start String String (⟨"old", "old", "old", []⟩ : OneFile))
      otherThreadWrites).map fun ws => (oneFileGit.history ws.repo, ws.passed)) =
      some ([("untested", "complete a: a")], ["old"]) := by
  decide +kernel

end Orchestrator
