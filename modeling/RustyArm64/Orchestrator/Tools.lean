import Mathlib.Data.List.DropRight
import RustyArm64.Base.FileTree

/-! The tools that read and write files of the Rust project. The model chooses their file
paths, which may lead anywhere, and the device may refuse what they ask for. -/
namespace Orchestrator

open FileTree

section Paths

/-- `os.path.join`, for two parts. -/
def joinPath (first second : List Char) : List Char :=
  if second.head? = some '/' then second
  else if first = [] ∨ first.getLast? = some '/' then first ++ second
  else first ++ '/' :: second

/-- `os.path.dirname`. -/
def dirname (path : List Char) : List Char :=
  let head := path.rdropWhile (· != '/')
  if head.all (· == '/') then head else head.rdropWhile (· == '/')

abbrev Name := List Char

def move (component : List Char) : Move Name :=
  if component = [] ∨ component = ['.'] then .stay
  else if component = ['.', '.'] then .up
  else .down component

/-- The moves of a path that is opened. -/
def moves (path : List Char) : List (Move Name) := (path.splitOn '/').map move

/-- The moves of a path whose directories are made. Repeated slashes are skipped. -/
def steps (path : List Char) : List (Move Name) :=
  ((path.splitOn '/').filter (· ≠ [])).map move

/-- An absolute path starts at the root. -/
def origin (cwd : Address Name) (path : List Char) : Address Name :=
  if path.head? = some '/' then [] else cwd

theorem steps_concat_slash (path : List Char) : steps (path ++ ['/']) = steps path := by
  rw [steps, List.splitOn_append_cons_self, List.filter_append, steps]
  simp

theorem steps_rdropWhile (path : List Char) :
    steps (path.rdropWhile (· == '/')) = steps path := by
  induction path using List.reverseRecOn with
  | nil => rfl
  | append_singleton path c ih =>
      by_cases hSlash : c = '/'
      · rw [hSlash, List.rdropWhile_concat_pos _ _ _ (by simp), ih, steps_concat_slash]
      · rw [List.rdropWhile_concat_neg _ _ _ (by simpa using hSlash)]

/-- A path with a slash has a last component. -/
theorem exists_last_component {path : List Char} (hSlash : '/' ∈ path) :
    ∃ init last, path = init ++ '/' :: last ∧ '/' ∉ last := by
  obtain ⟨last, init, hPath, hLast⟩ :=
    List.eq_append_cons_of_mem (List.mem_reverse.mpr hSlash)
  refine ⟨init.reverse, last.reverse, ?_, by simpa using hLast⟩
  have hReverse := congrArg List.reverse hPath
  simpa using hReverse

section Dirname

variable {init last : List Char} (hLast : '/' ∉ last)

include hLast

theorem rdropWhile_component :
    (init ++ '/' :: last).rdropWhile (· != '/') = init ++ ['/'] := by
  have hNone : ∀ c ∈ last.reverse, (c != '/') = true := by
    intro c hC
    have hMem : c ∈ last := List.mem_reverse.mp hC
    rw [bne_iff_ne]
    rintro rfl
    exact hLast hMem
  rw [List.rdropWhile, List.reverse_append, List.reverse_cons, List.append_assoc,
    List.dropWhile_append_of_pos hNone]
  simp

/-- The directory part has the components before the last. -/
theorem steps_dirname : steps (dirname (init ++ '/' :: last)) = steps init := by
  rw [dirname, rdropWhile_component hLast]
  split
  · exact steps_concat_slash init
  · rw [steps_rdropWhile, steps_concat_slash]

/-- The directory of a path with a slash is not blank, and starts where the path starts. -/
theorem origin_dirname (cwd : Address Name) :
    dirname (init ++ '/' :: last) ≠ [] ∧
      origin cwd (dirname (init ++ '/' :: last)) = origin cwd (init ++ '/' :: last) := by
  have hSome : dirname (init ++ '/' :: last) ≠ [] := by
    rw [dirname, rdropWhile_component hLast]
    split
    · simp
    · rename_i hAll
      rw [Ne, List.rdropWhile_eq_nil_iff]
      simpa using hAll
  have hPrefix : dirname (init ++ '/' :: last) <+: init ++ '/' :: last := by
    have hHead : init ++ ['/'] <+: init ++ '/' :: last := ⟨last, by simp⟩
    rw [dirname, rdropWhile_component hLast]
    split
    · exact hHead
    · exact (List.rdropWhile_prefix _ _).trans hHead
  refine ⟨hSome, ?_⟩
  obtain ⟨rest, hPath⟩ := hPrefix
  have hHead : (init ++ '/' :: last).head? = (dirname (init ++ '/' :: last)).head? :=
    (congrArg List.head? hPath.symm).trans (List.head?_append_of_ne_nil _ hSome)
  rw [origin, origin, hHead]

/-- A path leads through its directory part and then to its last component. -/
theorem moves_component : moves (init ++ '/' :: last) = moves init ++ [move last] := by
  rw [moves, List.splitOn_append_cons_self, List.splitOn_eq_singleton hLast, List.map_append]
  rfl

end Dirname

/-- A skipped slash leads nowhere. -/
theorem mem_visited_steps {here place : Address Name} {path : List Char} :
    place ∈ visited here (steps path) ↔ place ∈ visited here (moves path) :=
  mem_visited_filter fun component hSkip => if_pos (Or.inl (by simpa using hSkip))

end Paths

section Tools

def simulatorDir : List Char := "../simulator".toList

/-- A file path that the model chooses. Python refuses one with a null character, with an
exception that no tool handles. -/
structure FilePath where
  text : String
  noNull : Char.ofNat 0 ∉ text.toList
  deriving DecidableEq

/-- The path that the tools open. -/
def fullPath (filepath : FilePath) : List Char := joinPath simulatorDir filepath.text.toList

/-- The line breaks that a text file is read with. -/
def universalNewlines : List Char → List Char
  | '\r' :: '\n' :: rest => '\n' :: universalNewlines rest
  | '\r' :: rest => '\n' :: universalNewlines rest
  | c :: rest => c :: universalNewlines rest
  | [] => []

/-- A file holds a text, or bytes that are no UTF-8. -/
abbrev Files := Tree Name (Option String)

/-- What the device does to a write, with the number of its error: it may refuse to make a
directory or to open the file, for want of a permission or for a name that is too long, say,
and it may fail when the file is open and so is empty already, which leaves the file as it
is then. -/
structure Device where
  refused : Address Name → Option Nat
  unopened : Option Nat
  stopped : Option (Nat × Option String)

/-- Nothing is refused. -/
def Device.takesAll : Device := ⟨fun _ => none, none, none⟩

/-- What a write leaves in the file. -/
def Device.left (device : Device) (content : String) : Option String :=
  match device.stopped with
  | none => some content
  | some (_, left) => left

inductive ToolError where
  | os (refusal : Refusal)
  /-- The bytes of a file are no UTF-8. -/
  | notText
  deriving DecidableEq, Repr

inductive ToolResult where
  | returned (text : String)
  | raised (error : ToolError)
  deriving DecidableEq, Repr

def errno : Refusal → Nat
  | .missing => 2
  | .taken => 17
  | .notDirectory => 20
  | .isDirectory => 21
  | .device code => code

/-- The texts of Python and of its platform. -/
structure Texts where
  repr : String → String
  strerror : Nat → String

/-- The text of an `OSError`. -/
def Texts.osError (texts : Texts) (code : Nat) : String :=
  "[Errno " ++ toString code ++ "] " ++ texts.strerror code

variable (texts : Texts) (cwd : Address Name) (tree : Files)

/-- Only a file that is not there is not an exception. What is there can be opened. -/
def readRustFile (filepath : FilePath) : ToolResult :=
  let full := fullPath filepath
  match read tree (origin cwd full) (moves full) with
  | .ok (some content) => .returned (String.ofList (universalNewlines content.toList))
  | .ok none => .raised .notText
  | .error .missing =>
    .returned ("File not found: " ++ String.ofList full ++
      ". Use write_rust_file to create it first.")
  | .error refusal => .raised (.os refusal)

/-- To open a file for writing, and to write as much as the device takes. -/
def openAndWrite (device : Device) (here : Address Name) (moves : List (Move Name))
    (content : String) : Except Refusal Files :=
  match device.unopened with
  | some code => .error (.device code)
  | none => write tree here moves (device.left content)

/-- The directories are made outside of the `try`. An error of `open` names the path, an
error in writing does not. -/
def writeRustFile (device : Device) (filepath : FilePath) (content : String) :
    Files × ToolResult :=
  let full := fullPath filepath
  let directory := if dirname full ≠ [] then dirname full else ['.']
  match makedirs tree device.refused (origin cwd directory) (steps directory).reverse with
  | (tree, some refusal) => (tree, .raised (.os refusal))
  | (tree, none) =>
    match openAndWrite tree device (origin cwd full) (moves full) content with
    | .error refusal =>
      (tree, .returned ("Failed to write " ++ String.ofList full ++ ": " ++
        texts.osError (errno refusal) ++ ": " ++ texts.repr (String.ofList full)))
    | .ok later =>
      match device.stopped with
      | some (code, _) => (later, .returned ("Failed to write " ++ String.ofList full ++ ": " ++
          texts.osError code))
      | none => (later, .returned ("Successfully wrote to " ++ String.ofList full))

end Tools

section Effect

/-- Where the path of a tool starts. -/
def home (cwd : Address Name) (filepath : FilePath) : Address Name := origin cwd (fullPath filepath)

/-- The place of the file. -/
def target (cwd : Address Name) (filepath : FilePath) : Address Name :=
  location (home cwd filepath) (moves (fullPath filepath))

/-- All places on the way to it. -/
def touched (cwd : Address Name) (filepath : FilePath) : List (Address Name) :=
  visited (home cwd filepath) (moves (fullPath filepath))

/-- The directories that are made. -/
def directoryMoves (filepath : FilePath) : List (Move Name) := steps (dirname (fullPath filepath))

/-- The places of these directories. -/
def way (cwd : Address Name) (filepath : FilePath) : List (Address Name) :=
  visited (home cwd filepath) (directoryMoves filepath)

def wrote (filepath : FilePath) : ToolResult :=
  .returned ("Successfully wrote to " ++ String.ofList (fullPath filepath))

def failed (texts : Texts) (filepath : FilePath) (refusal : Refusal) : ToolResult :=
  .returned ("Failed to write " ++ String.ofList (fullPath filepath) ++ ": " ++
    texts.osError (errno refusal) ++ ": " ++ texts.repr (String.ofList (fullPath filepath)))

/-- The report of a write that failed when the file was open. -/
def broken (texts : Texts) (filepath : FilePath) (code : Nat) : ToolResult :=
  .returned ("Failed to write " ++ String.ofList (fullPath filepath) ++ ": " ++
    texts.osError code)

/-- The report of a write that has opened the file. -/
def reported (texts : Texts) (device : Device) (filepath : FilePath) : ToolResult :=
  match device.stopped with
  | none => wrote filepath
  | some (code, _) => broken texts filepath code

/-- The texts differ in their first letter. -/
theorem wrote_ne_of_failed {filepath : FilePath} {rest : String} :
    wrote filepath ≠ .returned ("Failed to write " ++ rest) := by
  intro hSame
  have hFirst := congrArg (fun text => text.toList.head?) (ToolResult.returned.inj hSame)
  simp [String.toList_append] at hFirst

theorem failed_ne_wrote (texts : Texts) (filepath : FilePath) (refusal : Refusal) :
    failed texts filepath refusal ≠ wrote filepath := by
  rw [failed, String.append_assoc, String.append_assoc, String.append_assoc, String.append_assoc]
  exact wrote_ne_of_failed.symm

theorem broken_ne_wrote (texts : Texts) (filepath : FilePath) (code : Nat) :
    broken texts filepath code ≠ wrote filepath := by
  rw [broken, String.append_assoc, String.append_assoc]
  exact wrote_ne_of_failed.symm

/-- After the file is open the report depends on the device alone. -/
theorem reported_eq_wrote {texts : Texts} {device : Device} {filepath : FilePath} :
    reported texts device filepath = wrote filepath ↔ device.stopped = none := by
  rw [reported]
  rcases device.stopped with _ | ⟨code, left⟩
  · simp
  · simp [broken_ne_wrote]

theorem slash_mem_fullPath (filepath : FilePath) : '/' ∈ fullPath filepath := by
  rw [fullPath, joinPath]
  split
  · rename_i hAbsolute
    exact List.mem_of_mem_head? hAbsolute
  · split
    · rename_i hEnd
      exact absurd hEnd (by decide)
    · simp

variable {texts : Texts} {cwd : Address Name} {tree : Files} {device : Device}
  {filepath : FilePath} {content : String}

/-- The last component of the path, behind its directory. -/
theorem exists_component (cwd : Address Name) (filepath : FilePath) : ∃ init last,
    moves (fullPath filepath) = moves init ++ [move last] ∧
    directoryMoves filepath = steps init ∧ dirname (fullPath filepath) ≠ [] ∧
    origin cwd (dirname (fullPath filepath)) = home cwd filepath := by
  obtain ⟨init, last, hPath, hLast⟩ := exists_last_component (slash_mem_fullPath filepath)
  have hOrigin := @origin_dirname init last hLast cwd
  rw [← hPath] at hOrigin
  refine ⟨init, last, ?_, ?_, hOrigin⟩
  · rw [hPath, moves_component hLast]
  · rw [directoryMoves, hPath, steps_dirname hLast]

/-- The places a write may change: directories on the way, and the target. -/
theorem mem_touched {place : Address Name} : place ∈ touched cwd filepath ↔
    place ∈ way cwd filepath ∨ place = target cwd filepath := by
  obtain ⟨init, last, hMoves, hDirectory, -⟩ := exists_component cwd filepath
  have hInit := location_mem_visited (home cwd filepath) (moves init)
  rw [touched, hMoves, mem_visited_append, way, hDirectory, mem_visited_steps, target, hMoves,
    location_append, visited_cons, visited_nil, List.mem_cons, List.mem_singleton]
  refine ⟨?_, Or.imp_right Or.inr⟩
  rintro (hWay | rfl | hTarget)
  · exact Or.inl hWay
  · exact Or.inl hInit
  · exact Or.inr hTarget

/-- What a write does before the file is opened. -/
def madeDirectories (cwd : Address Name) (tree : Files) (device : Device) (filepath : FilePath) :
    Files × Option Refusal :=
  makedirs tree device.refused (home cwd filepath) (directoryMoves filepath).reverse

/-- To open the file of a path and to write to it. -/
def openTarget (cwd : Address Name) (tree : Files) (device : Device) (filepath : FilePath)
    (content : String) : Except Refusal Files :=
  openAndWrite tree device (home cwd filepath) (moves (fullPath filepath)) content

/-- Directories are made, and then a file if nothing is in the way. -/
theorem writeRustFile_cases (texts : Texts) (cwd : Address Name) (tree : Files) (device : Device)
    (filepath : FilePath) (content : String) :
    (∃ later refusal, madeDirectories cwd tree device filepath = (later, some refusal) ∧
      writeRustFile texts cwd tree device filepath content = (later, .raised (.os refusal))) ∨
    (∃ made later, madeDirectories cwd tree device filepath = (made, none) ∧
      openTarget cwd made device filepath content = .ok later ∧
      writeRustFile texts cwd tree device filepath content =
        (later, reported texts device filepath)) ∨
    ∃ made refusal, madeDirectories cwd tree device filepath = (made, none) ∧
      openTarget cwd made device filepath content = .error refusal ∧
      writeRustFile texts cwd tree device filepath content =
        (made, failed texts filepath refusal) := by
  obtain ⟨-, -, -, -, hSome, hOrigin⟩ := exists_component cwd filepath
  have hMade : makedirs tree device.refused (origin cwd (dirname (fullPath filepath)))
      (steps (dirname (fullPath filepath))).reverse = madeDirectories cwd tree device filepath := by
    rw [hOrigin]
    rfl
  rw [writeRustFile]
  simp only [if_pos hSome, hMade]
  rcases madeDirectories cwd tree device filepath with ⟨made, _ | refusal⟩
  · have hOpen : openAndWrite made device (origin cwd (fullPath filepath))
        (moves (fullPath filepath)) content = openTarget cwd made device filepath content := rfl
    simp only [hOpen]
    cases hWrite : openTarget cwd made device filepath content with
    | ok later =>
        refine Or.inr (Or.inl ⟨made, later, rfl, hWrite, ?_⟩)
        rw [reported]
        rcases device.stopped with _ | ⟨code, left⟩
        · rfl
        · rfl
    | error refusal => exact Or.inr (Or.inr ⟨made, refusal, rfl, hWrite, rfl⟩)
  · exact Or.inl ⟨made, refusal, rfl, rfl⟩

/-- Making the parent directories changes nothing but the way, and only what is not refused. -/
theorem made_way (cwd : Address Name) (tree : Files) (device : Device) (filepath : FilePath) :
    Made tree (madeDirectories cwd tree device filepath).1
      {place | place ∈ way cwd filepath ∧ device.refused place = none} := by
  have hMade := made_makedirs tree device.refused (home cwd filepath)
    (directoryMoves filepath).reverse
  rwa [List.reverse_reverse] at hMade

/-- Opening and writing puts what the device has taken, which may be a part or nothing. -/
theorem entry_of_openTarget {made later : Files}
    (hOpen : openTarget cwd made device filepath content = .ok later) :
    made.entry (target cwd filepath) ≠ some .dir ∧ later.entry =
      Function.update made.entry (target cwd filepath) (some (.file (device.left content))) := by
  rw [openTarget, openAndWrite] at hOpen
  split at hOpen
  · cases hOpen
  · exact entry_of_write hOpen

/-- The directories on the way, and the place of the file, after the file is opened. -/
theorem exists_openTarget {made : Files} :
    (∃ later, openTarget cwd made device filepath content = .ok later) ↔
      device.unopened = none ∧ (∀ place ∈ way cwd filepath, made.entry place = some .dir) ∧
      made.entry (target cwd filepath) ≠ some .dir := by
  obtain ⟨init, last, hMoves, hDirectory, -⟩ := exists_component cwd filepath
  rw [openTarget, openAndWrite]
  cases device.unopened with
  | some code => simp
  | none =>
      simp only [target, way, hMoves, hDirectory, exists_write_iff, stat_eq_dir_iff,
        mem_visited_steps, true_and]

/-- Whatever the outcome, nothing changes off the way, and directories stay. -/
theorem entry_writeRustFile (texts : Texts) (cwd : Address Name) (tree : Files) (device : Device)
    (filepath : FilePath) (content : String) (place : Address Name) :
    (writeRustFile texts cwd tree device filepath content).1.entry place = tree.entry place ∨
      place ∈ touched cwd filepath ∧ tree.entry place ≠ some .dir := by
  have hMade := made_way cwd tree device filepath
  have hKept : (madeDirectories cwd tree device filepath).1.entry place = tree.entry place ∨
      place ∈ touched cwd filepath ∧ tree.entry place ≠ some .dir :=
    (hMade place).imp_right fun ⟨⟨hPlace, _⟩, hNone, _⟩ =>
      ⟨mem_touched.mpr (Or.inl hPlace), by simp [hNone]⟩
  rcases writeRustFile_cases texts cwd tree device filepath content with
    ⟨later, refusal, hDirs, hEnd⟩ | ⟨made, later, hDirs, hOpen, hEnd⟩ |
    ⟨made, refusal, hDirs, -, hEnd⟩
  · rw [hEnd]
    rwa [hDirs] at hKept
  · rw [hDirs] at hKept hMade
    obtain ⟨hFree, hEntry⟩ := entry_of_openTarget hOpen
    rw [hEnd, hEntry]
    by_cases hTarget : place = target cwd filepath
    · refine Or.inr ⟨mem_touched.mpr (Or.inr hTarget), fun hDir => ?_⟩
      rw [hTarget] at hDir
      exact hFree (hMade.kept hDir)
    · rw [Function.update_of_ne hTarget]
      exact hKept
  · rw [hEnd]
    rwa [hDirs] at hKept

/-- The result of a write that has opened the file. -/
def Opened (texts : Texts) (filepath : FilePath) (result : ToolResult) : Prop :=
  result = wrote filepath ∨ ∃ code, result = broken texts filepath code

/-- What is reported after the file was opened, in either case. -/
theorem opened_reported (texts : Texts) (device : Device) (filepath : FilePath) :
    Opened texts filepath (reported texts device filepath) := by
  rw [reported]
  rcases device.stopped with _ | ⟨code, left⟩
  · exact Or.inl rfl
  · exact Or.inr ⟨code, rfl⟩

/-- A file changes only where this very file is opened. -/
theorem file_of_writeRustFile (texts : Texts) (cwd : Address Name) {tree : Files} (device : Device)
    (filepath : FilePath) (content : String) {place : Address Name} {text : Option String}
    (hFile : tree.entry place = some (.file text)) :
    (writeRustFile texts cwd tree device filepath content).1.entry place = some (.file text) ∨
      Opened texts filepath (writeRustFile texts cwd tree device filepath content).2 ∧
        place = target cwd filepath := by
  have hKept := (made_way cwd tree device filepath).kept hFile
  rcases writeRustFile_cases texts cwd tree device filepath content with
    ⟨later, refusal, hDirs, hEnd⟩ | ⟨made, later, hDirs, hOpen, hEnd⟩ |
    ⟨made, refusal, hDirs, -, hEnd⟩
  · rw [hDirs] at hKept
    rw [hEnd]
    exact Or.inl hKept
  · rw [hDirs] at hKept
    rw [hEnd]
    by_cases hTarget : place = target cwd filepath
    · exact Or.inr ⟨opened_reported texts device filepath, hTarget⟩
    · refine Or.inl ?_
      rw [(entry_of_openTarget hOpen).2, Function.update_of_ne hTarget]
      exact hKept
  · rw [hDirs] at hKept
    rw [hEnd]
    exact Or.inl hKept

/-- A directory survives every write. -/
theorem dir_of_writeRustFile (texts : Texts) (cwd : Address Name) {tree : Files} (device : Device)
    (filepath : FilePath) (content : String) {place : Address Name}
    (hDir : tree.entry place = some .dir) :
    (writeRustFile texts cwd tree device filepath content).1.entry place = some .dir := by
  rcases entry_writeRustFile texts cwd tree device filepath content place with hSame | ⟨-, hNot⟩
  · rw [hSame, hDir]
  · exact (hNot hDir).elim

theorem entry_home (hCwd : tree.entry cwd = some .dir) (filepath : FilePath) :
    tree.entry (home cwd filepath) = some .dir := by
  rw [home, origin]
  split
  · exact tree.root
  · exact hCwd

/-- A file is read when there are directories on the way to it. -/
theorem read_eq_ok {text : Option String} :
    read tree (home cwd filepath) (moves (fullPath filepath)) = .ok text ↔
      (∀ place ∈ way cwd filepath, tree.entry place = some .dir) ∧
      tree.entry (target cwd filepath) = some (.file text) := by
  obtain ⟨init, last, hMoves, hDirectory, -⟩ := exists_component cwd filepath
  simp only [target, way, hMoves, hDirectory, read_concat_eq_ok, stat_eq_dir_iff,
    mem_visited_steps]

/-- What a successful write has done. -/
theorem read_of_wrote
    (hWrote : (writeRustFile texts cwd tree device filepath content).2 = wrote filepath) :
    read (writeRustFile texts cwd tree device filepath content).1 (home cwd filepath)
      (moves (fullPath filepath)) = .ok (some content) := by
  rcases writeRustFile_cases texts cwd tree device filepath content with
    ⟨later, refusal, -, hEnd⟩ | ⟨made, later, -, hOpen, hEnd⟩ | ⟨made, refusal, -, -, hEnd⟩
  · rw [hEnd] at hWrote
    cases hWrote
  · rw [hEnd] at hWrote ⊢
    obtain ⟨-, hWay, -⟩ := exists_openTarget.mp ⟨later, hOpen⟩
    obtain ⟨hFree, hEntry⟩ := entry_of_openTarget hOpen
    have hLeft : device.left content = some content := by
      rw [Device.left, reported_eq_wrote.mp hWrote]
    rw [read_eq_ok, hEntry]
    refine ⟨fun place hPlace => ?_, by rw [Function.update_self, hLeft]⟩
    have hNe : place ≠ target cwd filepath := by
      rintro rfl
      exact hFree (hWay _ hPlace)
    rw [Function.update_of_ne hNe]
    exact hWay place hPlace
  · rw [hEnd] at hWrote
    exact (failed_ne_wrote texts filepath refusal hWrote).elim

/-- No file stands where a directory is needed. -/
def Clear (cwd : Address Name) (tree : Files) (filepath : FilePath) : Prop :=
  ∀ place ∈ way cwd filepath, ∀ text, tree.entry place ≠ some (.file text)

/-- The device makes every directory that is missing on the way. -/
def Device.MakesWay (device : Device) (cwd : Address Name) (tree : Files) (filepath : FilePath) :
    Prop :=
  ∀ place ∈ way cwd filepath, tree.entry place = none → device.refused place = none

/-- There are directories all the way if and only if the call finds them or may make them. -/
theorem way_madeDirectories (hCwd : tree.entry cwd = some .dir) :
    (∀ place ∈ way cwd filepath,
      (madeDirectories cwd tree device filepath).1.entry place = some .dir) ↔
    Clear cwd tree filepath ∧ device.MakesWay cwd tree filepath := by
  have hMade := made_way cwd tree device filepath
  constructor
  · intro hDirs
    refine ⟨fun place hPlace text hFile => ?_, fun place hPlace hMissing => ?_⟩
    · have hKept := hMade.kept hFile
      rw [hDirs place hPlace] at hKept
      cases hKept
    · rcases hMade place with hSame | ⟨⟨-, hAllowed⟩, -⟩
      · rw [hDirs place hPlace, hMissing] at hSame
        cases hSame
      · exact hAllowed
  · rintro ⟨hClear, hAllowed⟩
    have hReverse := List.reverse_reverse (directoryMoves filepath)
    obtain ⟨-, hDir⟩ := makedirs_of_not_file (entry_home hCwd filepath)
      (by rw [hReverse]; exact hClear) (by rw [hReverse]; exact hAllowed)
    rw [hReverse] at hDir
    exact stat_eq_dir_iff.mp hDir

/-- The way is made when no file stands in it and the device refuses none of it. -/
theorem madeDirectories_eq_none (hCwd : tree.entry cwd = some .dir)
    (hClear : Clear cwd tree filepath) (hAllowed : device.MakesWay cwd tree filepath) :
    (madeDirectories cwd tree device filepath).2 = none := by
  have hReverse := List.reverse_reverse (directoryMoves filepath)
  exact (makedirs_of_not_file (entry_home hCwd filepath) (by rw [hReverse]; exact hClear)
    (by rw [hReverse]; exact hAllowed)).1

/-- The call makes a directory of the target itself when the path leads back on its way. -/
theorem target_madeDirectories (hDirs : ∀ place ∈ way cwd filepath,
    (madeDirectories cwd tree device filepath).1.entry place = some .dir) :
    (madeDirectories cwd tree device filepath).1.entry (target cwd filepath) = some .dir ↔
      tree.entry (target cwd filepath) = some .dir ∨ target cwd filepath ∈ way cwd filepath := by
  have hMade := made_way cwd tree device filepath
  constructor
  · intro hDir
    rcases hMade (target cwd filepath) with hSame | ⟨⟨hPlace, -⟩, -⟩
    · rw [hSame] at hDir
      exact Or.inl hDir
    · exact Or.inr hPlace
  · rintro (hDir | hPlace)
    · exact hMade.kept hDir
    · exact hDirs _ hPlace

/-- Success, step by step: the way made, the file opened, all of it written. -/
theorem wrote_iff_opened :
    (writeRustFile texts cwd tree device filepath content).2 = wrote filepath ↔
      (madeDirectories cwd tree device filepath).2 = none ∧ device.stopped = none ∧
      ∃ later, openTarget cwd (madeDirectories cwd tree device filepath).1 device filepath
        content = .ok later := by
  rcases writeRustFile_cases texts cwd tree device filepath content with
    ⟨later, refusal, hDirs, hEnd⟩ | ⟨made, later, hDirs, hOpen, hEnd⟩ |
    ⟨made, refusal, hDirs, hOpen, hEnd⟩
  · rw [hEnd, hDirs]
    simp [wrote]
  · rw [hEnd, hDirs]
    simp [hOpen, reported_eq_wrote]
  · rw [hEnd, hDirs]
    simp [failed_ne_wrote, hOpen]

/-- Success in terms of the tree before the call. -/
theorem write_succeeds_iff (hCwd : tree.entry cwd = some .dir) :
    (writeRustFile texts cwd tree device filepath content).2 = wrote filepath ↔
      (Clear cwd tree filepath ∧ device.MakesWay cwd tree filepath) ∧
      (tree.entry (target cwd filepath) ≠ some .dir ∧
        target cwd filepath ∉ way cwd filepath) ∧
      device.unopened = none ∧ device.stopped = none := by
  rw [wrote_iff_opened, exists_openTarget, way_madeDirectories hCwd]
  constructor
  · rintro ⟨-, hTaken, hOpened, hWay, hFree⟩
    rw [Ne, target_madeDirectories ((way_madeDirectories hCwd).mpr hWay), not_or] at hFree
    exact ⟨hWay, hFree, hOpened, hTaken⟩
  · rintro ⟨hWay, hFree, hOpened, hTaken⟩
    rw [Ne, target_madeDirectories ((way_madeDirectories hCwd).mpr hWay), not_or]
    exact ⟨madeDirectories_eq_none hCwd hWay.1 hWay.2, hTaken, hOpened, hWay, hFree⟩

/-- The directories that were made are there after the call, whatever becomes of the file. -/
theorem way_writeRustFile {place : Address Name} (hPlace : place ∈ way cwd filepath)
    (hWay : ∀ place ∈ way cwd filepath,
      (madeDirectories cwd tree device filepath).1.entry place = some .dir) :
    (writeRustFile texts cwd tree device filepath content).1.entry place = some .dir := by
  have hDir := hWay place hPlace
  rcases writeRustFile_cases texts cwd tree device filepath content with
    ⟨later, refusal, hDirs, hEnd⟩ | ⟨made, later, hDirs, hOpen, hEnd⟩ |
    ⟨made, refusal, hDirs, -, hEnd⟩
  · rw [hDirs] at hDir
    rw [hEnd]
    exact hDir
  · rw [hDirs] at hDir
    obtain ⟨hFree, hEntry⟩ := entry_of_openTarget hOpen
    have hNe : place ≠ target cwd filepath := by
      rintro rfl
      exact hFree hDir
    rw [hEnd, hEntry, Function.update_of_ne hNe]
    exact hDir
  · rw [hDirs] at hDir
    rw [hEnd]
    exact hDir

/-- A write succeeds exactly when no file is in the way, the path does not lead to a
directory, be it one that the call itself makes, and the device makes the directories that
are missing, opens the file and takes the content. Only a file in the way and a directory
that the device refuses can raise. Nothing is said about links, nor about a path with a null
character, which is no `FilePath`. -/
theorem wrote_iff (texts : Texts) {cwd : Address Name} {tree : Files}
    (hCwd : tree.entry cwd = some .dir) (device : Device) (filepath : FilePath)
    (content : String) :
    ((writeRustFile texts cwd tree device filepath content).2 = wrote filepath ↔
      (Clear cwd tree filepath ∧ device.MakesWay cwd tree filepath) ∧
      (tree.entry (target cwd filepath) ≠ some .dir ∧
        target cwd filepath ∉ way cwd filepath) ∧
      device.unopened = none ∧ device.stopped = none) ∧
    ∀ error, (writeRustFile texts cwd tree device filepath content).2 = .raised error →
      ¬(Clear cwd tree filepath ∧ device.MakesWay cwd tree filepath) := by
  refine ⟨write_succeeds_iff hCwd, ?_⟩
  rintro error hRaised ⟨hClear, hAllowed⟩
  have hNone := madeDirectories_eq_none hCwd hClear hAllowed
  rcases writeRustFile_cases texts cwd tree device filepath content with
    ⟨later, other, hDirs, -⟩ | ⟨made, later, -, -, hEnd⟩ | ⟨made, other, -, -, hEnd⟩
  · rw [hDirs] at hNone
    cases hNone
  · rw [hEnd] at hRaised
    rcases opened_reported texts device filepath with hWrote | ⟨code, hBroken⟩
    · cases hWrote.symm.trans hRaised
    · cases hBroken.symm.trans hRaised
  · rw [hEnd] at hRaised
    cases hRaised

/-- The orchestrator lies below the root. -/
abbrev plainCwd : Address Name := ["orchestrator".toList]

def plainTexts : Texts := ⟨id, fun _ => "error"⟩

def wayBack : FilePath := ⟨"src/a/..", by decide⟩

/-- The way back makes a directory where the file would be. -/
theorem wrote_iff_wayBack :
    (writeRustFile plainTexts plainCwd (bare plainCwd) .takesAll wayBack "").2 ≠ wrote wayBack ∧
    (((writeRustFile plainTexts plainCwd (bare plainCwd) .takesAll wayBack "").2 =
        wrote wayBack ↔
      (Clear plainCwd (bare plainCwd) wayBack ∧
        Device.takesAll.MakesWay plainCwd (bare plainCwd) wayBack) ∧
      ((bare plainCwd : Files).entry (target plainCwd wayBack) ≠ some .dir ∧
        target plainCwd wayBack ∉ way plainCwd wayBack) ∧
      Device.takesAll.unopened = none ∧ Device.takesAll.stopped = none) ∧
    ∀ error, (writeRustFile plainTexts plainCwd (bare plainCwd) .takesAll wayBack "").2 =
        .raised error →
      ¬(Clear plainCwd (bare plainCwd) wayBack ∧
        Device.takesAll.MakesWay plainCwd (bare plainCwd) wayBack)) :=
  ⟨by decide +kernel,
    wrote_iff plainTexts (entry_bare_self plainCwd) .takesAll wayBack ""⟩

end Effect

section Calls

/-- A call of a file tool. Each write finds the device as it is then. -/
inductive FileCall where
  | read (filepath : FilePath)
  | write (filepath : FilePath) (content : String) (device : Device)

variable (texts : Texts) (cwd : Address Name)

def call (tree : Files) : FileCall → Files × ToolResult
  | .read filepath => (tree, readRustFile cwd tree filepath)
  | .write filepath content device => writeRustFile texts cwd tree device filepath content

/-- The calls with their results. -/
def replies : Files → List FileCall → List (FileCall × ToolResult)
  | _, [] => []
  | tree, first :: rest =>
    (first, (call texts cwd tree first).2) :: replies (call texts cwd tree first).1 rest

def calls (tree : Files) (list : List FileCall) : Files :=
  list.foldl (fun tree next => (call texts cwd tree next).1) tree

variable {texts cwd} {tree : Files} {filepath : FilePath}

theorem call_write (tree : Files) (filepath : FilePath) (content : String) (device : Device) :
    call texts cwd tree (.write filepath content device) =
      writeRustFile texts cwd tree device filepath content := rfl

/-- A call leaves a file readable, unless it opens the file for writing. -/
theorem read_call {text : Option String} (next : FileCall)
    (hRead : read tree (home cwd filepath) (moves (fullPath filepath)) = .ok text)
    (hOther : ∀ other content device, next = .write other content device →
      Opened texts other (call texts cwd tree next).2 → target cwd other ≠ target cwd filepath) :
    read (call texts cwd tree next).1 (home cwd filepath) (moves (fullPath filepath)) =
      .ok text := by
  cases next with
  | read other =>
      rw [call]
      exact hRead
  | write other content device =>
      rw [call_write] at hOther ⊢
      obtain ⟨hWay, hFile⟩ := read_eq_ok.mp hRead
      refine read_eq_ok.mpr ⟨fun place hPlace => dir_of_writeRustFile texts cwd device other content
        (hWay place hPlace), ?_⟩
      rcases file_of_writeRustFile texts cwd device other content hFile with
        hKept | ⟨hOpened, hTarget⟩
      · exact hKept
      · exact (hOther other content device rfl hOpened hTarget.symm).elim

theorem replies_cons (tree : Files) (first : FileCall) (rest : List FileCall) :
    replies texts cwd tree (first :: rest) = (first, (call texts cwd tree first).2) ::
      replies texts cwd (call texts cwd tree first).1 rest := rfl

theorem calls_nil (tree : Files) : calls texts cwd tree [] = tree := rfl

theorem calls_cons (tree : Files) (first : FileCall) (rest : List FileCall) :
    calls texts cwd tree (first :: rest) = calls texts cwd (call texts cwd tree first).1 rest :=
  rfl

theorem read_calls {text : Option String} {list : List FileCall}
    (hRead : read tree (home cwd filepath) (moves (fullPath filepath)) = .ok text)
    (hOthers : ∀ other content device result,
      (.write other content device, result) ∈ replies texts cwd tree list →
      Opened texts other result → target cwd other ≠ target cwd filepath) :
    read (calls texts cwd tree list) (home cwd filepath) (moves (fullPath filepath)) =
      .ok text := by
  induction list generalizing tree with
  | nil => exact hRead
  | cons next rest ih =>
      rw [calls_cons]
      simp only [replies_cons, List.mem_cons] at hOthers
      refine ih (read_call next hRead ?_) fun other content device result hMem =>
        hOthers other content device result (Or.inr hMem)
      rintro other content device rfl hOpened
      exact hOthers other content device _ (Or.inl rfl) hOpened

/-- A file that was written holds that text after any further calls, if none of them
opens it for writing. -/
theorem read_of_replies {content : String} {device : Device} {list : List FileCall}
    {before after : List (FileCall × ToolResult)}
    (hLog : replies texts cwd tree list =
      before ++ (.write filepath content device, wrote filepath) :: after)
    (hLast : ∀ other text device result, (.write other text device, result) ∈ after →
      Opened texts other result → target cwd other ≠ target cwd filepath) :
    read (calls texts cwd tree list) (home cwd filepath) (moves (fullPath filepath)) =
      .ok (some content) := by
  induction list generalizing tree before with
  | nil => simp [replies] at hLog
  | cons next rest ih =>
      rw [replies_cons] at hLog
      rw [calls_cons]
      cases before with
      | nil =>
          obtain ⟨hHead, rfl⟩ := List.cons.inj hLog
          obtain ⟨rfl, hWrote⟩ := Prod.mk.inj hHead
          rw [call_write] at hWrote hLast ⊢
          exact read_calls (read_of_wrote hWrote) hLast
      | cons first before => exact ih (List.cons.inj hLog).2

/-- In every session, a file that was written is read with the text of the last successful
write to its place, with the line breaks of a text file, unless a later write has opened it
and failed then. Such a write empties the file, and what it held is lost. Another path to
the place gives the same text if it can be read. -/
theorem last_write_is_read (texts : Texts) (cwd : Address Name) (tree : Files)
    (list : List FileCall) {before after : List (FileCall × ToolResult)}
    {filepath : FilePath} {content : String} {device : Device}
    (hLog : replies texts cwd tree list =
      before ++ (.write filepath content device, wrote filepath) :: after)
    (hLast : ∀ other text device result, (.write other text device, result) ∈ after →
      Opened texts other result → target cwd other ≠ target cwd filepath) :
    readRustFile cwd (calls texts cwd tree list) filepath =
      .returned (String.ofList (universalNewlines content.toList)) ∧
    ∀ other text, target cwd other = target cwd filepath →
      read (calls texts cwd tree list) (home cwd other) (moves (fullPath other)) = .ok text →
      text = some content := by
  have hRead := read_of_replies hLog hLast
  refine ⟨?_, fun other text hTarget hOther => ?_⟩
  · rw [home] at hRead
    simp only [readRustFile, hRead]
  · have hFile := (read_eq_ok.mp hRead).2
    rw [← hTarget, (read_eq_ok.mp hOther).2] at hFile
    cases hFile
    rfl

def mainFile : FilePath := ⟨"src/main.rs", by decide⟩

def manifest : FilePath := ⟨"src/../Cargo.toml", by decide⟩

/-- There is no room for the content, with the number of the error on Linux. -/
def Device.full : Device := ⟨fun _ => none, none, some (28, some "")⟩

/-- A file of two lines, a read, and another file that the device does not take. -/
def twoFiles : List FileCall :=
  [.write mainFile "a\r\nb" .takesAll, .read manifest, .write manifest "c" .full]

/-- What follows the first write. -/
def afterFirstWrite : List (FileCall × ToolResult) :=
  [(.read manifest, .returned ("File not found: ../simulator/src/../Cargo.toml. " ++
      "Use write_rust_file to create it first.")),
    (.write manifest "c" .full, broken plainTexts manifest 28)]

theorem replies_twoFiles : replies plainTexts plainCwd (bare plainCwd) twoFiles =
    [] ++ (.write mainFile "a\r\nb" .takesAll, wrote mainFile) :: afterFirstWrite := by
  have hResults : (replies plainTexts plainCwd (bare plainCwd) twoFiles).map Prod.snd =
      wrote mainFile :: afterFirstWrite.map Prod.snd := by decide +kernel
  simp only [twoFiles, replies, List.map_cons, List.cons.injEq, afterFirstWrite] at hResults
  simp only [twoFiles, replies, hResults, afterFirstWrite, List.nil_append]

theorem last_write_is_read_twoFiles :
    readRustFile plainCwd (calls plainTexts plainCwd (bare plainCwd) twoFiles) mainFile =
      .returned "a\nb" ∧
    ∀ other text, target plainCwd other = target plainCwd mainFile →
      read (calls plainTexts plainCwd (bare plainCwd) twoFiles) (home plainCwd other)
        (moves (fullPath other)) = .ok text → text = some "a\r\nb" := by
  have hOthers : ∀ other text device result,
      (FileCall.write other text device, result) ∈ afterFirstWrite →
      Opened plainTexts other result → target plainCwd other ≠ target plainCwd mainFile := by
    intro other text device result hMem _
    obtain ⟨⟨rfl, -, -⟩, -⟩ : (other = manifest ∧ text = "c" ∧ device = .full) ∧
        result = broken plainTexts manifest 28 := by simpa [afterFirstWrite] using hMem
    decide
  exact last_write_is_read plainTexts plainCwd (bare plainCwd) twoFiles replies_twoFiles hOthers

end Calls

section Confinement

/-- Where the Rust project lies. -/
def projectRoot (cwd : Address Name) : Address Name := location cwd (moves simulatorDir)

theorem projectRoot_eq (cwd : Address Name) :
    projectRoot cwd = "simulator".toList :: cwd.tail := by
  have hMoves : moves simulatorDir = [.up, .down "simulator".toList] := by decide
  rw [projectRoot, hMoves]
  rfl

/-- A path that makes for no place outside of the project. The directories above the
orchestrator are there. -/
def Confined (cwd : Address Name) (filepath : FilePath) : Prop :=
  ∀ place ∈ touched cwd filepath, projectRoot cwd <:+ place ∨ place <:+ cwd

instance (cwd : Address Name) (filepath : FilePath) : Decidable (Confined cwd filepath) :=
  inferInstanceAs (Decidable (∀ _ ∈ _, _))

variable {texts : Texts} {cwd : Address Name} {tree : Files} {device : Device}
  {filepath : FilePath} {content : String}

/-- A confined write leaves everything outside the project root. -/
theorem outside_writeRustFile (hCwd : tree.entry cwd = some .dir)
    (hConfined : Confined cwd filepath) {place : Address Name}
    (hOutside : ¬projectRoot cwd <:+ place) :
    (writeRustFile texts cwd tree device filepath content).1.entry place = tree.entry place := by
  rcases entry_writeRustFile texts cwd tree device filepath content place with
    hSame | ⟨hTouched, hNot⟩
  · exact hSame
  · rcases hConfined place hTouched with hInside | hAbove
    · exact (hOutside hInside).elim
    · exact (hNot (tree.entry_of_suffix hAbove hCwd)).elim

theorem dir_of_call {place : Address Name} (next : FileCall)
    (hDir : tree.entry place = some .dir) :
    (call texts cwd tree next).1.entry place = some .dir := by
  cases next with
  | read other => exact hDir
  | write other content device =>
      rw [call_write]
      exact dir_of_writeRustFile texts cwd device other content hDir

/-- Nothing outside of the project changes in a session of confined writes. -/
theorem outside_calls {list : List FileCall} (hCwd : tree.entry cwd = some .dir)
    (hConfined : ∀ filepath content device, .write filepath content device ∈ list →
      Confined cwd filepath) {place : Address Name} (hOutside : ¬projectRoot cwd <:+ place) :
    (calls texts cwd tree list).entry place = tree.entry place := by
  induction list generalizing tree with
  | nil => rfl
  | cons next rest ih =>
      rw [calls_cons, ih (dir_of_call next hCwd) fun filepath content device hMem =>
        hConfined filepath content device (List.mem_cons_of_mem next hMem)]
      cases next with
      | read other => rw [call]
      | write other content device =>
          rw [call_write]
          exact outside_writeRustFile hCwd
            (hConfined other content device List.mem_cons_self) hOutside

/-- A relative path that never leads above its start is confined. -/
theorem confined_of_inside (hRelative : filepath.text.toList.head? ≠ some '/')
    (hInside : inside 0 (moves filepath.text.toList) = true) : Confined cwd filepath := by
  have hFull : fullPath filepath = simulatorDir ++ '/' :: filepath.text.toList := by
    rw [fullPath, joinPath, if_neg hRelative, if_neg (by decide)]
  have hMoves : moves (fullPath filepath) =
      moves simulatorDir ++ moves filepath.text.toList := by
    rw [hFull, moves, List.splitOn_append_cons_self, List.map_append]
    rfl
  have hHome : home cwd filepath = cwd := by
    rw [home, origin, hFull, if_neg]
    exact fun hSlash => nomatch hSlash
  intro place hPlace
  rw [touched, hMoves, hHome, mem_visited_append] at hPlace
  rcases hPlace with hWay | hBelow
  · have hStart : moves simulatorDir = [.up, .down "simulator".toList] := by decide
    rw [hStart] at hWay
    simp only [visited_cons, visited_nil, go, List.mem_cons, List.not_mem_nil, or_false] at hWay
    rcases hWay with rfl | rfl | rfl
    · exact Or.inr (List.suffix_refl place)
    · exact Or.inr (List.tail_suffix cwd)
    · rw [projectRoot_eq]
      exact Or.inl (List.suffix_refl _)
  · have hDepth : inside ([] : List Name).length (moves filepath.text.toList) = true := hInside
    exact Or.inl (suffix_of_inside hDepth hBelow)

/-- In a tree with no more than the orchestrator's own directories, all that a path makes
for is made if the device takes it. -/
theorem exists_of_bare {place : Address Name} (hPlace : place ∈ touched cwd filepath) :
    (writeRustFile texts cwd (bare cwd) .takesAll filepath content).1.entry place ≠ none := by
  have hCwd : (bare cwd : Files).entry cwd = some .dir := entry_bare_self cwd
  have hClear : Clear cwd (bare cwd) filepath := by
    intro other _ text
    rw [entry_bare]
    split <;> simp
  have hAllowed : Device.takesAll.MakesWay cwd (bare cwd) filepath := fun _ _ _ => rfl
  by_cases hOn : place ∈ way cwd filepath
  · rw [way_writeRustFile hOn ((way_madeDirectories hCwd).mpr ⟨hClear, hAllowed⟩)]
    simp
  · obtain rfl := (mem_touched.mp hPlace).resolve_left hOn
    by_cases hDir : (bare cwd : Files).entry (target cwd filepath) = some .dir
    · rw [dir_of_writeRustFile texts cwd .takesAll filepath content hDir]
      simp
    · have hWrote : (writeRustFile texts cwd (bare cwd) .takesAll filepath content).2 =
          wrote filepath :=
        (write_succeeds_iff hCwd).mpr ⟨⟨hClear, hAllowed⟩, ⟨hDir, hOn⟩, rfl, rfl⟩
      rw [(read_eq_ok.mp (read_of_wrote hWrote)).2]
      simp

/-- The sessions that write only to paths of one kind leave everything outside of the
project alone, in whatever tree and whatever the device refuses, exactly when all paths of
the kind are confined. A relative path is, if it never leads above its start. A tree has no
links here: through one, a confined path leads outside as well. -/
theorem sessions_are_confined_iff (texts : Texts) (cwd : Address Name)
    (allowed : FilePath → Prop) :
    ((∀ tree : Files, tree.entry cwd = some .dir → ∀ list : List FileCall,
      (∀ filepath content device, .write filepath content device ∈ list → allowed filepath) →
      ∀ place, ¬projectRoot cwd <:+ place →
        (calls texts cwd tree list).entry place = tree.entry place) ↔
    ∀ filepath, allowed filepath → Confined cwd filepath) ∧
    ∀ filepath : FilePath, filepath.text.toList.head? ≠ some '/' →
      inside 0 (moves filepath.text.toList) = true → Confined cwd filepath := by
  refine ⟨⟨?_, ?_⟩, fun filepath => confined_of_inside⟩
  · intro hSessions filepath hAllowed place hTouched
    by_contra hOut
    rw [not_or] at hOut
    have hOnly : ∀ other content device,
        FileCall.write other content device ∈ [.write filepath "" .takesAll] → allowed other := by
      intro other content device hMem
      obtain ⟨rfl, -, -⟩ := FileCall.write.inj (List.mem_singleton.mp hMem)
      exact hAllowed
    have hSame := hSessions (bare cwd) (entry_bare_self cwd) _ hOnly place hOut.1
    rw [calls_cons, call_write, calls_nil, entry_bare, if_neg hOut.2] at hSame
    exact exists_of_bare hTouched hSame
  · intro hConfined tree hCwd list hAllowed place hOutside
    exact outside_calls hCwd (fun filepath content device hMem =>
      hConfined filepath (hAllowed filepath content device hMem)) hOutside

/-- A path that leads up and into the project again is confined, one into the
orchestrator is not. -/
example : Confined plainCwd ⟨"../simulator/src/main.rs", by decide⟩ ∧
    ¬Confined plainCwd ⟨"../orchestrator/main.py", by decide⟩ := by decide

end Confinement

end Orchestrator
