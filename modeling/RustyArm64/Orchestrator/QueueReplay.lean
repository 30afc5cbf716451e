import RustyArm64.Base.AtLeastOnce
import RustyArm64.Orchestrator.Messages
import RustyArm64.Orchestrator.PlanApproval

/-! The queue manager under at-least-once execution. What its git commands have
done outlives a crash, while the workflow starts again from the same state. -/
namespace Orchestrator

open AtLeastOnce (crash complete)

/-- The git that the node calls, and what can be seen of a repository. -/
structure Git (Repo Tree : Type) where
  /-- The files that are not ignored. -/
  worktree : Repo → Tree
  index : Repo → Tree
  /-- The tree of the last commit, or the empty one. -/
  head : Repo → Tree
  /-- The tree and the message of each commit. -/
  history : Repo → List (Tree × String)
  /-- What `git status --porcelain` prints. -/
  status : Repo → String
  addAll : Repo → Repo
  /-- A commit that is not refused. -/
  commit : Repo → String → Repo
  /-- The message as a commit keeps it: blanks at the end of a line are cut off, say. -/
  recorded : String → String

/-- The messages that the queue manager commits with. None is blank. -/
def IsTaskMessage (message : String) : Prop := ∃ text, message = "complete " ++ text

namespace Git

variable {Repo Tree : Type}

/-- The documented behaviour of the three commands where they succeed and no hook writes
files, for the messages of the queue manager alone. It is not said that git never refuses
a commit. -/
structure Documented (git : Git Repo Tree) : Prop where
  /-- A path gets a line if two of the three trees differ on it, and no line is blank. -/
  status_blank : ∀ repo, strip (git.status repo) = "" ↔
    git.worktree repo = git.index repo ∧ git.index repo = git.head repo
  addAll_worktree : ∀ repo, git.worktree (git.addAll repo) = git.worktree repo
  addAll_index : ∀ repo, git.index (git.addAll repo) = git.worktree repo
  addAll_head : ∀ repo, git.head (git.addAll repo) = git.head repo
  addAll_history : ∀ repo, git.history (git.addAll repo) = git.history repo
  commit_worktree : ∀ repo message, IsTaskMessage message →
    git.worktree (git.commit repo message) = git.worktree repo
  commit_head : ∀ repo message, IsTaskMessage message →
    git.head (git.commit repo message) = git.index repo
  commit_history : ∀ repo message, IsTaskMessage message → git.index repo ≠ git.head repo →
    git.history (git.commit repo message) =
      git.history repo ++ [(git.index repo, git.recorded message)]
  /-- There is no empty commit. -/
  commit_nothing : ∀ repo message, IsTaskMessage message → git.index repo = git.head repo →
    git.history (git.commit repo message) = git.history repo

/-- A call of git by the node. -/
inductive Call where
  | status
  | run (command : GitCommand)
  deriving DecidableEq, Repr

def apply (git : Git Repo Tree) (repo : Repo) : Call → Repo
  | .status => repo
  | .run .addAll => git.addAll repo
  | .run (.commit message) => git.commit repo message

end Git

section Queue

variable {Id Repo Tree : Type} [DecidableEq Id] [Value Id] (settings : Settings Id)
  (state : WorkflowState Id) (git : Git Repo Tree)

/-- The message of the commit for a task. -/
def commitMessage (task : Id) : String :=
  "complete " ++ Value.str task ++ ": " ++ Value.str (taskTitle settings state task)

theorem isTaskMessage_commitMessage (task : Id) :
    IsTaskMessage (commitMessage settings state task) := by
  refine ⟨Value.str task ++ (": " ++ Value.str (taskTitle settings state task)), ?_⟩
  rw [commitMessage, String.append_assoc, String.append_assoc]

/-- The calls of git in an execution that finds the repository so. -/
def queueManagerCalls (repo : Repo) : List Git.Call :=
  match state.todoTasks with
  | [] => []
  | _ :: _ => .status :: (queueManagerNode settings state (git.status repo)).2.map .run

/-- The repository after an execution that crashes when it has made `k` calls. -/
def crashedRepo : Repo → Nat → Repo := crash git.apply (queueManagerCalls settings state git)

def completedRepo : Repo → Repo := complete git.apply (queueManagerCalls settings state git)

/-- What is seen of a repository between executions. -/
def Git.view (repo : Repo) : Tree × List (Tree × String) := (git.worktree repo, git.history repo)

section Execution

variable {state} {task : Id} {rest : List Id} (hTodo : state.todoTasks = task :: rest)

include hTodo in
/-- The calls of one execution. What git says first decides whether it commits at all. -/
theorem queueManagerCalls_eq (repo : Repo) : queueManagerCalls settings state git repo =
    if strip (git.status repo) = "" then [.status]
    else [.status, .run .addAll, .run (.commit (commitMessage settings state task))] := by
  simp only [queueManagerCalls, queueManagerNode, hTodo, commitCommands, commitMessage]
  split <;> rfl

include hTodo in
/-- A crash is before the first command, between the two, or behind them. -/
theorem crashedRepo_cases (repo : Repo) (k : Nat) :
    crashedRepo settings state git repo k = repo ∨
    crashedRepo settings state git repo k = git.addAll repo ∨
    crashedRepo settings state git repo k = completedRepo settings state git repo := by
  have hCalls : queueManagerCalls settings state git repo = _ :=
    queueManagerCalls_eq settings git hTodo repo
  by_cases hLate : (queueManagerCalls settings state git repo).length ≤ k
  · exact Or.inr (Or.inr (AtLeastOnce.crash_of_length_le _ _ hLate))
  · rw [hCalls] at hLate
    rw [crashedRepo, crash, hCalls]
    by_cases hBlank : strip (git.status repo) = ""
    · rw [if_pos hBlank] at hLate ⊢
      obtain rfl : k = 0 := by simpa using hLate
      exact Or.inl rfl
    · rw [if_neg hBlank] at hLate ⊢
      rcases k with _ | _ | _ | k
      · exact Or.inl rfl
      · exact Or.inl rfl
      · exact Or.inr (Or.inl rfl)
      · exact (hLate (Nat.le_add_left 3 k)).elim

variable {git} (hGit : git.Documented)

include hTodo hGit in
/-- A complete execution commits the working tree if the last commit has another. -/
theorem completedRepo_spec (repo : Repo) :
    git.worktree (completedRepo settings state git repo) = git.worktree repo ∧
    git.head (completedRepo settings state git repo) = git.worktree repo ∧
    (git.worktree repo ≠ git.head repo →
      git.history (completedRepo settings state git repo) = git.history repo ++
        [(git.worktree repo, git.recorded (commitMessage settings state task))]) ∧
    (git.worktree repo = git.head repo →
      git.history (completedRepo settings state git repo) = git.history repo) := by
  have hMessage := isTaskMessage_commitMessage settings state task
  rw [completedRepo, complete, queueManagerCalls_eq settings git hTodo]
  by_cases hBlank : strip (git.status repo) = ""
  · obtain ⟨hIndex, hHead⟩ := (hGit.status_blank repo).mp hBlank
    have hClean := hIndex.trans hHead
    rw [if_pos hBlank]
    exact ⟨rfl, hClean.symm, fun hDirty => (hDirty hClean).elim, fun _ => rfl⟩
  · rw [if_neg hBlank]
    simp only [List.foldl_cons, List.foldl_nil, Git.apply]
    refine ⟨?_, ?_, fun hDirty => ?_, fun hClean => ?_⟩
    · rw [hGit.commit_worktree _ _ hMessage, hGit.addAll_worktree]
    · rw [hGit.commit_head _ _ hMessage, hGit.addAll_index]
    · rw [hGit.commit_history _ _ hMessage (by rwa [hGit.addAll_index, hGit.addAll_head]),
        hGit.addAll_index, hGit.addAll_history]
    · rw [hGit.commit_nothing _ _ hMessage (by rwa [hGit.addAll_index, hGit.addAll_head]),
        hGit.addAll_history]

include hTodo hGit in
/-- A complete execution after a crash leaves what it would have left before. -/
theorem view_completed_crashed (repo : Repo) (k : Nat) :
    git.view (completedRepo settings state git (crashedRepo settings state git repo k)) =
      git.view (completedRepo settings state git repo) := by
  have hSpec (repo : Repo) := completedRepo_spec settings hTodo hGit repo
  obtain ⟨hTree, hHead, hDirty, hClean⟩ := hSpec repo
  rcases crashedRepo_cases settings git hTodo repo k with hSame | hAdded | hDone
  · rw [hSame]
  · obtain ⟨hTree', -, hDirty', hClean'⟩ := hSpec (git.addAll repo)
    rw [hGit.addAll_worktree, hGit.addAll_head, hGit.addAll_history] at hDirty' hClean'
    rw [hAdded, Git.view, Git.view, hTree', hTree, hGit.addAll_worktree]
    by_cases hSame : git.worktree repo = git.head repo
    · rw [hClean' hSame, hClean hSame]
    · rw [hDirty' hSame, hDirty hSame]
  · obtain ⟨hTree', -, -, hClean'⟩ := hSpec (completedRepo settings state git repo)
    rw [hDone, Git.view, Git.view, hTree', hClean' (hTree.trans hHead.symm)]

end Execution

/-- A complete execution that finds the repository `entry` does what a single one
does that finds `repo`: its task is moved, and there is its commit once. -/
structure AdvancesOnce (task : Id) (rest : List Id) (repo entry : Repo) : Prop where
  update : (queueManagerNode settings state (git.status entry)).1 =
    (queueManagerNode settings state (git.status repo)).1
  moved : state.merge (queueManagerNode settings state (git.status entry)).1 = { state with
    todoTasks := rest
    completedTasks := state.completedTasks ++ [task]
    messages := []
    testsPassed := false
    retryCount := 0
    toolCallCount := 0 }
  worktree : git.worktree (completedRepo settings state git entry) = git.worktree repo
  dirty : git.worktree repo ≠ git.head repo →
    git.history (completedRepo settings state git entry) =
      git.history repo ++ [(git.worktree repo, git.recorded (commitMessage settings state task))]
  clean : git.worktree repo = git.head repo →
    git.history (completedRepo settings state git entry) = git.history repo

/-- However often the node has crashed, and at whatever calls, the execution that
completes moves one task, and the history gains one commit of the working tree
that the first execution found, or none if that was committed already. It is assumed
that git refuses no commit. What it makes of the message is left to it. -/
theorem queueManager_at_least_once (hGit : git.Documented) (hTodo : state.todoTasks ≠ [])
    (repo : Repo) (crashes : List Nat) : ∃ task rest, state.todoTasks = task :: rest ∧
      AdvancesOnce settings state git task rest repo
        (crashes.foldl (crashedRepo settings state git) repo) := by
  obtain ⟨task, rest, hCons⟩ := List.exists_cons_of_ne_nil hTodo
  obtain ⟨hTree, -, hDirty, hClean⟩ := completedRepo_spec settings hCons hGit repo
  have hView := AtLeastOnce.complete_after_crashes git.view
    (view_completed_crashed settings hCons hGit) crashes repo
  obtain ⟨hTree', hHistory⟩ := Prod.mk.inj hView
  refine ⟨task, rest, hCons, ?_, ?_, hTree'.trans hTree, fun h => hHistory.trans (hDirty h),
    fun h => hHistory.trans (hClean h)⟩
  · simp only [queueManagerNode, hCons]
  · rw [merge_queueManagerNode_cons settings hCons, ← afterTask_messages state task rest]
    rfl

end Queue

/-- A repository with one file that is always there. -/
structure OneFile where
  worktree : String
  index : String
  head : String
  history : List (String × String)

/-- The letters for the index and the working tree, if there is one to print. -/
def oneFileStatus (staged changed : Bool) : String :=
  if staged || changed then
    (if staged then "M" else " ") ++ (if changed then "M" else " ") ++ " lib.rs\n"
  else ""

def oneFileGit : Git OneFile String where
  worktree repo := repo.worktree
  index repo := repo.index
  head repo := repo.head
  history repo := repo.history
  status repo := oneFileStatus (repo.index != repo.head) (repo.worktree != repo.index)
  addAll repo := { repo with index := repo.worktree }
  commit repo message :=
    if repo.index = repo.head then repo
    else { repo with head := repo.index, history := repo.history ++ [(repo.index, message)] }
  recorded := id

/-- The status is blank exactly for a clean working tree with nothing staged. -/
theorem oneFileStatus_blank (staged changed : Bool) :
    strip (oneFileStatus staged changed) = "" ↔ changed = false ∧ staged = false := by
  cases staged <;> cases changed <;> decide +kernel

theorem oneFileGit_documented : oneFileGit.Documented where
  status_blank repo := by simp [oneFileGit, oneFileStatus_blank]
  addAll_worktree _ := rfl
  addAll_index _ := rfl
  addAll_head _ := rfl
  addAll_history _ := rfl
  commit_worktree repo message _ := by
    simp only [oneFileGit]
    split <;> rfl
  commit_head repo message _ := by
    simp only [oneFileGit]
    split
    · rename_i hSame
      exact hSame.symm
    · rfl
  commit_history repo message _ hOther := by
    simp only [oneFileGit] at hOther ⊢
    rw [if_neg hOther, id]
  commit_nothing repo message _ hSame := by
    simp only [oneFileGit] at hSame ⊢
    rw [if_pos hSame]

def testedState : WorkflowState String := { initialState String "goal" with todoTasks := ["a"] }

/-- Three crashes, the second one between the two commands. -/
theorem queueManager_at_least_once_oneFile : ∃ task rest, testedState.todoTasks = task :: rest ∧
    AdvancesOnce idLineSettings testedState oneFileGit task rest ⟨"new", "old", "old", []⟩
      ([1, 2, 3].foldl (crashedRepo idLineSettings testedState oneFileGit)
        ⟨"new", "old", "old", []⟩) :=
  queueManager_at_least_once idLineSettings testedState oneFileGit oneFileGit_documented
    (List.cons_ne_nil _ _) ⟨"new", "old", "old", []⟩ [1, 2, 3]

end Orchestrator
