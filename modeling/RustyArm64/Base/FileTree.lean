import Mathlib.Data.List.Infix
import Mathlib.Data.Set.Basic
import Mathlib.Logic.Function.Basic

/-! Trees of directories and files, without links. A path is a list of moves from a
directory, and the places an operation can touch are known from the moves alone. Every
directory can be searched, and a device may refuse a new one. -/
namespace FileTree

/-- The names on the way from the root, the last one first. -/
abbrev Address (Name : Type*) := List Name

inductive Move (Name : Type*) where
  | stay
  | up
  | down (name : Name)
  deriving DecidableEq, Repr

inductive Entry (Content : Type*) where
  | dir
  | file (content : Content)
  deriving DecidableEq, Repr

/-- The root is a directory, and whatever exists lies in a directory. -/
structure Tree (Name Content : Type*) where
  entry : Address Name → Option (Entry Content)
  root : entry [] = some .dir
  parent : ∀ name place, entry (name :: place) ≠ none → entry place = some .dir

/-- Why an operation is refused: by what stands in the tree, or by the device, with a number. -/
inductive Refusal where
  | missing | taken | notDirectory | isDirectory
  | device (code : Nat)
  deriving DecidableEq, Repr

variable {Name Content : Type*}

instance (entry : Option (Entry Content)) : Decidable (entry = some .dir) :=
  match entry with
  | none => .isFalse nofun
  | some .dir => .isTrue rfl
  | some (.file _) => .isFalse nofun

section Places

/-- Above the root is the root. -/
def go (here : Address Name) : Move Name → Address Name
  | .stay => here
  | .up => here.tail
  | .down name => name :: here

def location (here : Address Name) (moves : List (Move Name)) : Address Name := moves.foldl go here

/-- The places on the way, with both ends. -/
def visited (here : Address Name) (moves : List (Move Name)) : List (Address Name) :=
  moves.scanl go here

/-- The moves never lead above the place that lies this deep over the start. -/
def inside : Nat → List (Move Name) → Bool
  | _, [] => true
  | depth, .stay :: rest => inside depth rest
  | 0, .up :: _ => false
  | depth + 1, .up :: rest => inside depth rest
  | depth, .down _ :: rest => inside (depth + 1) rest

@[simp] theorem location_nil (here : Address Name) : location here [] = here := rfl

@[simp] theorem location_cons (here : Address Name) (move : Move Name) (rest : List (Move Name)) :
    location here (move :: rest) = location (go here move) rest := rfl

/-- Where a path leads is a fact about its moves alone, so paths compose. -/
theorem location_append (here : Address Name) (first second : List (Move Name)) :
    location here (first ++ second) = location (location here first) second :=
  List.foldl_append

@[simp] theorem visited_nil (here : Address Name) : visited here [] = [here] := rfl

@[simp] theorem visited_cons (here : Address Name) (move : Move Name) (rest : List (Move Name)) :
    visited here (move :: rest) = here :: visited (go here move) rest := List.scanl_cons

theorem start_mem_visited (here : Address Name) (moves : List (Move Name)) :
    here ∈ visited here moves := by
  cases moves with
  | nil => exact List.mem_singleton_self here
  | cons move rest =>
      rw [visited_cons]
      exact List.mem_cons_self

theorem location_mem_visited (here : Address Name) (moves : List (Move Name)) :
    location here moves ∈ visited here moves := by
  induction moves generalizing here with
  | nil => exact List.mem_singleton_self here
  | cons move rest ih =>
      rw [visited_cons, location_cons]
      exact List.mem_cons_of_mem here (ih (go here move))

theorem mem_visited_append {here place : Address Name} {first second : List (Move Name)} :
    place ∈ visited here (first ++ second) ↔
      place ∈ visited here first ∨ place ∈ visited (location here first) second := by
  induction first generalizing here with
  | nil =>
      have hHere : place = here → place ∈ visited here second := by
        rintro rfl
        exact start_mem_visited place second
      simpa using hHere
  | cons move rest ih => simp [ih, or_assoc]

section Skipping

variable {Component : Type*} {move : Component → Move Name} {keep : Component → Bool}
  (hKeep : ∀ component, keep component = false → move component = .stay)

include hKeep

/-- To stay where one is leads to no other place. -/
theorem mem_visited_filter {here place : Address Name} {path : List Component} :
    place ∈ visited here ((path.filter keep).map move) ↔ place ∈ visited here (path.map move) := by
  induction path generalizing here with
  | nil => rfl
  | cons component rest ih =>
      cases hComponent : keep component with
      | true => simp [hComponent, ih]
      | false =>
          rw [List.filter_cons_of_neg (by simp [hComponent]), ih, List.map_cons, visited_cons,
            hKeep component hComponent, List.mem_cons]
          refine ⟨Or.inr, ?_⟩
          rintro (rfl | hRest)
          · exact start_mem_visited place _
          · exact hRest

end Skipping

/-- What stays inside visits no place but those below. -/
theorem suffix_of_inside {names root place : Address Name} {moves : List (Move Name)}
    (hInside : inside names.length moves = true) (hPlace : place ∈ visited (names ++ root) moves) :
    root <:+ place := by
  induction moves generalizing names with
  | nil =>
      rw [visited_nil, List.mem_singleton] at hPlace
      exact ⟨names, hPlace.symm⟩
  | cons move rest ih =>
      rw [visited_cons, List.mem_cons] at hPlace
      rcases hPlace with rfl | hRest
      · exact List.suffix_append names root
      · cases move with
        | stay => exact ih (by simpa [inside] using hInside) hRest
        | up =>
            cases names with
            | nil => simp [inside] at hInside
            | cons name outer => exact ih (by simpa [inside] using hInside) hRest
        | down name =>
            have hDeeper : inside (name :: names).length rest = true := by
              simpa [inside] using hInside
            exact ih hDeeper hRest

end Places

section Lookup

variable (tree : Tree Name Content)

/-- Every move starts at a directory. -/
def walk (here : Address Name) : List (Move Name) → Except Refusal (Address Name)
  | [] => .ok here
  | move :: rest =>
    match tree.entry here with
    | none => .error .missing
    | some (.file _) => .error .notDirectory
    | some .dir => walk (go here move) rest

/-- What a path leads to, if anything. -/
def stat (here : Address Name) (moves : List (Move Name)) : Option (Entry Content) :=
  match walk tree here moves with
  | .ok place => tree.entry place
  | .error _ => none

def read (here : Address Name) (moves : List (Move Name)) : Except Refusal Content :=
  match walk tree here moves with
  | .error refusal => .error refusal
  | .ok place =>
    match tree.entry place with
    | none => .error .missing
    | some .dir => .error .isDirectory
    | some (.file content) => .ok content

variable {tree}

/-- A directory lies in a directory. -/
theorem Tree.entry_tail {place : Address Name} (hDir : tree.entry place = some .dir) :
    tree.entry place.tail = some .dir := by
  cases place with
  | nil => exact hDir
  | cons name outer => exact tree.parent name outer (by simp [hDir])

/-- Above anything there are directories only. -/
theorem Tree.entry_of_suffix {outer place : Address Name} (hOuter : outer <:+ place)
    (hDir : tree.entry place = some .dir) : tree.entry outer = some .dir := by
  obtain ⟨names, rfl⟩ := hOuter
  induction names with
  | nil => exact hDir
  | cons name names ih => exact ih (tree.entry_tail hDir)

/-- A walk goes on only from a directory, also when the next move leads back up. -/
theorem walk_cons_eq_ok {here place : Address Name} {move : Move Name} {rest : List (Move Name)} :
    walk tree here (move :: rest) = .ok place ↔
      tree.entry here = some .dir ∧ walk tree (go here move) rest = .ok place := by
  rw [walk]
  rcases tree.entry here with _ | _ | content <;> simp

theorem stat_cons {here : Address Name} {move : Move Name} {rest : List (Move Name)}
    {entry : Entry Content} : stat tree here (move :: rest) = some entry ↔
      tree.entry here = some .dir ∧ stat tree (go here move) rest = some entry := by
  rw [stat, walk, stat]
  rcases tree.entry here with _ | _ | content <;> simp

/-- A walk that succeeds ends where its moves lead: there are no links to follow. -/
theorem location_of_walk {here place : Address Name} {moves : List (Move Name)}
    (hWalk : walk tree here moves = .ok place) : place = location here moves := by
  induction moves generalizing here with
  | nil => exact (Except.ok.inj hWalk).symm
  | cons move rest ih => exact ih (walk_cons_eq_ok.mp hWalk).2

theorem entry_of_stat {here : Address Name} {moves : List (Move Name)} {entry : Entry Content}
    (hStat : stat tree here moves = some entry) :
    tree.entry (location here moves) = some entry := by
  rw [stat] at hStat
  split at hStat
  · rename_i place hWalk
    rw [← location_of_walk hWalk]
    exact hStat
  · cases hStat

/-- A path leads to a directory when every place on the way is one. -/
theorem stat_eq_dir_iff {here : Address Name} {moves : List (Move Name)} :
    stat tree here moves = some .dir ↔
      ∀ place ∈ visited here moves, tree.entry place = some .dir := by
  induction moves generalizing here with
  | nil => simp [stat, walk]
  | cons move rest ih => rw [visited_cons, List.forall_mem_cons, stat_cons, ih]

/-- The last move is made from a directory. -/
theorem walk_concat_eq_ok {here place : Address Name} {moves : List (Move Name)}
    {move : Move Name} : walk tree here (moves ++ [move]) = .ok place ↔
      stat tree here moves = some .dir ∧ place = location here (moves ++ [move]) := by
  induction moves generalizing here with
  | nil =>
      rw [List.nil_append, walk_cons_eq_ok]
      simp [stat, walk, eq_comm]
  | cons first rest ih =>
      rw [List.cons_append, walk_cons_eq_ok, ih, stat_cons, location_cons, and_assoc]

end Lookup

section Change

variable [DecidableEq Name]

/-- A new entry for a place that is not a directory and lies in one. -/
def Tree.put (tree : Tree Name Content) (name : Name) (outer : Address Name)
    (value : Entry Content) (hOuter : tree.entry outer = some .dir)
    (hFree : tree.entry (name :: outer) ≠ some .dir) : Tree Name Content where
  entry := Function.update tree.entry (name :: outer) (some value)
  root := by
    rw [Function.update_of_ne (List.cons_ne_nil name outer).symm]
    exact tree.root
  parent := by
    intro other place hOther
    have hPlace : place ≠ name :: outer → Function.update tree.entry (name :: outer) (some value)
        place = tree.entry place := fun hNe => Function.update_of_ne hNe _ _
    by_cases hSame : other :: place = name :: outer
    · obtain ⟨rfl, rfl⟩ := List.cons.inj hSame
      rw [hPlace (List.ne_cons_self), hOuter]
    · rw [Function.update_of_ne hSame] at hOther
      have hDir : tree.entry place = some .dir := tree.parent other place hOther
      have hNe : place ≠ name :: outer := by
        rintro rfl
        exact hFree hDir
      rw [hPlace hNe, hDir]

variable (tree : Tree Name Content) (refused : Address Name → Option Nat)

/-- `mkdir`. What stands in the tree is looked at before the device is asked. -/
def mkdir (here : Address Name) (moves : List (Move Name)) : Except Refusal (Tree Name Content) :=
  match walk tree here moves with
  | .error refusal => .error refusal
  | .ok [] => .error .taken
  | .ok (name :: outer) =>
    if hFree : tree.entry (name :: outer) = none then
      if hOuter : tree.entry outer = some .dir then
        match refused (name :: outer) with
        | some code => .error (.device code)
        | none => .ok (tree.put name outer .dir hOuter (by simp [hFree]))
      else .error .missing
    else .error .taken

/-- To open a file for writing, to empty it and to leave a content there. -/
def write (here : Address Name) (moves : List (Move Name)) (content : Content) :
    Except Refusal (Tree Name Content) :=
  match walk tree here moves with
  | .error refusal => .error refusal
  | .ok [] => .error .isDirectory
  | .ok (name :: outer) =>
    if hFree : tree.entry (name :: outer) = some .dir then .error .isDirectory
    else if hOuter : tree.entry outer = some .dir then
      .ok (tree.put name outer (.file content) hOuter hFree)
    else .error .missing

/-- `mkdir`, where a directory that exists is no error. -/
def ensureDir (here : Address Name) (moves : List (Move Name)) :
    Tree Name Content × Option Refusal :=
  match mkdir tree refused here moves with
  | .ok made => (made, none)
  | .error refusal =>
    if stat tree here moves = some .dir then (tree, none) else (tree, some refusal)

/-- To make a directory and those it lies in, for moves given in reverse. The directories
made before an error stay. -/
def makedirs (here : Address Name) : List (Move Name) → Tree Name Content × Option Refusal
  | [] => (tree, none)
  | tail :: head =>
    let existed := (stat tree here head.reverse).isSome
    let outer := if existed then (tree, none) else makedirs here head
    if outer.2 = none ∨ outer.2 = some .taken then
      if existed = false ∧ tail = .stay then (outer.1, none)
      else ensureDir outer.1 refused here (tail :: head).reverse
    else outer

variable {tree refused} {later : Tree Name Content}

omit [DecidableEq Name] in
/-- The last place of a path lies in a directory. -/
theorem entry_tail_location {here : Address Name} {moves : List (Move Name)}
    (hDir : stat tree here moves = some .dir) (move : Move Name) :
    tree.entry (location here (moves ++ [move])).tail = some .dir := by
  have hLast : tree.entry (location here moves) = some .dir :=
    stat_eq_dir_iff.mp hDir _ (location_mem_visited here moves)
  rw [location_append]
  cases move with
  | stay => exact tree.entry_tail hLast
  | up => exact tree.entry_tail (tree.entry_tail hLast)
  | down name => exact hLast

/-- A directory that was made was not there before, and nothing refused it. -/
theorem entry_of_mkdir {here : Address Name} {moves : List (Move Name)}
    (hMade : mkdir tree refused here moves = .ok later) :
    tree.entry (location here moves) = none ∧ refused (location here moves) = none ∧
      later.entry = Function.update tree.entry (location here moves) (some .dir) := by
  rw [mkdir] at hMade
  split at hMade
  · cases hMade
  · cases hMade
  · rename_i name outer hWalk
    rw [← location_of_walk hWalk]
    split at hMade
    · rename_i hFree
      split at hMade
      · split at hMade
        · cases hMade
        · rename_i hAllowed
          cases hMade
          exact ⟨hFree, hAllowed, rfl⟩
      · cases hMade
    · cases hMade

/-- A directory is made where its parent stands, the name is free and nothing refuses it. -/
theorem exists_mkdir {here : Address Name} {moves : List (Move Name)} {move : Move Name}
    (hDir : stat tree here moves = some .dir)
    (hFree : tree.entry (location here (moves ++ [move])) = none)
    (hAllowed : refused (location here (moves ++ [move])) = none) :
    ∃ later, mkdir tree refused here (moves ++ [move]) = .ok later := by
  have hOuter := entry_tail_location hDir move
  have hWalk : walk tree here (moves ++ [move]) = .ok (location here (moves ++ [move])) :=
    walk_concat_eq_ok.mpr ⟨hDir, rfl⟩
  rw [mkdir, hWalk]
  cases hPlace : location here (moves ++ [move]) with
  | nil => simp [hPlace, tree.root] at hFree
  | cons name outer =>
      rw [hPlace, List.tail_cons] at hOuter
      rw [hPlace] at hFree hAllowed
      simp only [hFree, hOuter, hAllowed, dif_pos]
      exact ⟨_, rfl⟩

/-- A write succeeds where the way is open and no directory stands. -/
theorem exists_write_iff {here : Address Name} {moves : List (Move Name)} {move : Move Name}
    {content : Content} : (∃ later, write tree here (moves ++ [move]) content = .ok later) ↔
      stat tree here moves = some .dir ∧
        tree.entry (location here (moves ++ [move])) ≠ some .dir := by
  rw [write]
  constructor
  · rintro ⟨later, hLater⟩
    split at hLater
    · cases hLater
    · cases hLater
    · rename_i name outer hWalk
      obtain ⟨hDir, hPlace⟩ := walk_concat_eq_ok.mp hWalk
      rw [← hPlace]
      split at hLater
      · cases hLater
      · rename_i hFree
        exact ⟨hDir, hFree⟩
  · rintro ⟨hDir, hFree⟩
    have hOuter := entry_tail_location hDir move
    have hWalk : walk tree here (moves ++ [move]) = .ok (location here (moves ++ [move])) :=
      walk_concat_eq_ok.mpr ⟨hDir, rfl⟩
    rw [hWalk]
    cases hPlace : location here (moves ++ [move]) with
    | nil => simp [hPlace, tree.root] at hFree
    | cons name outer =>
        rw [hPlace] at hFree hOuter
        simp only [hFree, dif_neg, not_false_iff]
        exact ⟨_, dif_pos hOuter⟩

/-- A write replaces a file or makes one. It never replaces a directory. -/
theorem entry_of_write {here : Address Name} {moves : List (Move Name)} {content : Content}
    (hWritten : write tree here moves content = .ok later) :
    tree.entry (location here moves) ≠ some .dir ∧
      later.entry = Function.update tree.entry (location here moves) (some (.file content)) := by
  rw [write] at hWritten
  split at hWritten
  · cases hWritten
  · cases hWritten
  · rename_i name outer hWalk
    rw [← location_of_walk hWalk]
    split at hWritten
    · cases hWritten
    · rename_i hFree
      split at hWritten
      · cases hWritten
        exact ⟨hFree, rfl⟩
      · cases hWritten

/-- Nothing is new but directories at some of these places. -/
def Made (tree later : Tree Name Content) (places : Set (Address Name)) :
    Prop :=
  ∀ place, later.entry place = tree.entry place ∨
    (place ∈ places ∧ tree.entry place = none ∧ later.entry place = some .dir)

namespace Made

variable {places more : Set (Address Name)} {last : Tree Name Content}

omit [DecidableEq Name]

theorem refl (tree : Tree Name Content) (places : Set (Address Name)) : Made tree tree places :=
  fun _ => Or.inl rfl

theorem mono (h : Made tree later places) (hMore : places ⊆ more) : Made tree later more :=
  fun place => (h place).imp_right fun ⟨hPlace, hNew⟩ => ⟨hMore hPlace, hNew⟩

theorem trans (hFirst : Made tree later places) (hSecond : Made later last places) :
    Made tree last places := by
  intro place
  rcases hSecond place with hSame | ⟨hPlace, hNone, hDir⟩
  · rw [hSame]
    exact hFirst place
  · rcases hFirst place with hSame | ⟨-, -, hOld⟩
    · exact Or.inr ⟨hPlace, hSame ▸ hNone, hDir⟩
    · rw [hOld] at hNone
      cases hNone

/-- What exists is kept. -/
theorem kept (h : Made tree later places) {place : Address Name} {entry : Entry Content}
    (hEntry : tree.entry place = some entry) : later.entry place = some entry := by
  rcases h place with hSame | ⟨-, hNone, -⟩
  · rw [hSame, hEntry]
  · rw [hNone] at hEntry
    cases hEntry

/-- Making directories neither makes, changes nor removes a file. -/
theorem file_iff (h : Made tree later places) {place : Address Name} {content : Content} :
    later.entry place = some (.file content) ↔ tree.entry place = some (.file content) := by
  refine ⟨fun hFile => ?_, h.kept⟩
  rcases h place with hSame | ⟨-, -, hDir⟩
  · rw [← hSame, hFile]
  · rw [hDir] at hFile
    cases hFile

/-- A directory that was there is found as before. -/
theorem stat_dir (h : Made tree later places) {here : Address Name} {moves : List (Move Name)}
    (hDir : stat tree here moves = some .dir) : stat later here moves = some .dir :=
  stat_eq_dir_iff.mpr fun place hPlace => h.kept (stat_eq_dir_iff.mp hDir place hPlace)

end Made

theorem made_ensureDir (tree : Tree Name Content) (refused : Address Name → Option Nat)
    (here : Address Name) (moves : List (Move Name)) :
    Made tree (ensureDir tree refused here moves).1
      {place | place = location here moves ∧ refused place = none} := by
  rw [ensureDir]
  split
  · rename_i made hMade
    obtain ⟨hNone, hAllowed, hEntry⟩ := entry_of_mkdir hMade
    intro place
    by_cases hPlace : place = location here moves
    · refine Or.inr ⟨⟨hPlace, hPlace ▸ hAllowed⟩, hPlace ▸ hNone, ?_⟩
      rw [hEntry, hPlace, Function.update_self]
    · exact Or.inl (by rw [hEntry, Function.update_of_ne hPlace])
  · split
    · exact Made.refl tree _
    · exact Made.refl tree _

/-- Directories are made at places on the way only, where the device does not refuse them,
also when there is an error. -/
theorem made_makedirs (tree : Tree Name Content) (refused : Address Name → Option Nat)
    (here : Address Name) (moves : List (Move Name)) :
    Made tree (makedirs tree refused here moves).1
      {place | place ∈ visited here moves.reverse ∧ refused place = none} := by
  induction moves with
  | nil => exact Made.refl tree _
  | cons tail head ih =>
      have hWay : {place | place ∈ visited here head.reverse ∧ refused place = none} ⊆
          {place | place ∈ visited here (tail :: head).reverse ∧ refused place = none} := by
        rintro place ⟨hPlace, hAllowed⟩
        rw [List.reverse_cons]
        exact ⟨mem_visited_append.mpr (Or.inl hPlace), hAllowed⟩
      have hOuter : Made tree (if (stat tree here head.reverse).isSome then (tree, none)
          else makedirs tree refused here head).1
          {place | place ∈ visited here (tail :: head).reverse ∧ refused place = none} := by
        split
        · exact Made.refl tree _
        · exact ih.mono hWay
      simp only [makedirs]
      generalize (if (stat tree here head.reverse).isSome then (tree, none)
        else makedirs tree refused here head) = outer at hOuter ⊢
      split
      · split
        · exact hOuter
        · refine hOuter.trans ((made_ensureDir _ refused here _).mono ?_)
          rintro place ⟨rfl, hAllowed⟩
          exact ⟨location_mem_visited here _, hAllowed⟩
      · exact hOuter

/-- A directory is made, or there already. -/
theorem ensureDir_of_not_file {here : Address Name} {moves : List (Move Name)} {tail : Move Name}
    (hDir : stat tree here moves = some .dir)
    (hFile : ∀ content, tree.entry (location here (moves ++ [tail])) ≠ some (.file content))
    (hAllowed : tree.entry (location here (moves ++ [tail])) = none →
      refused (location here (moves ++ [tail])) = none) :
    (ensureDir tree refused here (moves ++ [tail])).2 = none ∧
      stat (ensureDir tree refused here (moves ++ [tail])).1 here (moves ++ [tail]) =
        some .dir := by
  have hStat : ∀ other, (∃ places, Made tree other places) →
      other.entry (location here (moves ++ [tail])) = some .dir →
      stat other here (moves ++ [tail]) = some .dir := by
    rintro other ⟨places, hMade⟩ hLast
    rw [stat, walk_concat_eq_ok.mpr ⟨hMade.stat_dir hDir, rfl⟩]
    exact hLast
  have hMade := made_ensureDir tree refused here (moves ++ [tail])
  rw [ensureDir] at hMade ⊢
  cases hEntry : tree.entry (location here (moves ++ [tail])) with
  | none =>
      obtain ⟨made, hMkdir⟩ := exists_mkdir hDir hEntry (hAllowed hEntry)
      simp only [hMkdir] at hMade ⊢
      refine ⟨trivial, hStat made ⟨_, hMade⟩ ?_⟩
      rw [(entry_of_mkdir hMkdir).2.2, Function.update_self]
  | some entry =>
      cases entry with
      | file content => exact (hFile content hEntry).elim
      | dir =>
          have hSame := hStat tree ⟨∅, Made.refl tree _⟩ hEntry
          cases hMkdir : mkdir tree refused here (moves ++ [tail]) with
          | ok made =>
              rw [(entry_of_mkdir hMkdir).1] at hEntry
              cases hEntry
          | error refusal => simp [hSame]

/-- Where no file is in the way and the device refuses nothing that is missing there, there
is a directory behind it. -/
theorem makedirs_of_not_file {here : Address Name} (hHere : tree.entry here = some .dir)
    {moves : List (Move Name)} (hFile : ∀ place ∈ visited here moves.reverse, ∀ content,
      tree.entry place ≠ some (.file content))
    (hAllowed : ∀ place ∈ visited here moves.reverse, tree.entry place = none →
      refused place = none) :
    (makedirs tree refused here moves).2 = none ∧
      stat (makedirs tree refused here moves).1 here moves.reverse = some .dir := by
  induction moves with
  | nil => exact ⟨rfl, hHere⟩
  | cons tail head ih =>
      rw [List.reverse_cons] at hFile hAllowed ⊢
      have hWay {place : Address Name} (hPlace : place ∈ visited here head.reverse) :
          place ∈ visited here (head.reverse ++ [tail]) := mem_visited_append.mpr (Or.inl hPlace)
      have hHead := fun place hPlace => hFile place (hWay hPlace)
      obtain ⟨hNone, hDir⟩ := ih hHead fun place hPlace => hAllowed place (hWay hPlace)
      have hMade := made_makedirs tree refused here head
      have hEnd := location_mem_visited here (head.reverse ++ [tail])
      have hEnsure : ∀ later places, Made tree later places →
          stat later here head.reverse = some .dir →
          (ensureDir later refused here (head.reverse ++ [tail])).2 = none ∧
            stat (ensureDir later refused here (head.reverse ++ [tail])).1 here
              (head.reverse ++ [tail]) = some .dir := by
        intro later places hLater hStat
        refine ensureDir_of_not_file hStat (fun content hEntry =>
          hFile _ hEnd content (hLater.file_iff.mp hEntry)) fun hMissing => hAllowed _ hEnd ?_
        rcases hLater (location here (head.reverse ++ [tail])) with hSame | ⟨-, hFree, -⟩
        · rw [← hSame, hMissing]
        · exact hFree
      simp only [makedirs, List.reverse_cons]
      cases hExisted : stat tree here head.reverse with
      | none =>
          simp only [Option.isSome_none, Bool.false_eq_true, if_false, hNone, true_or, if_true,
            true_and]
          split
          · rename_i hStay
            refine ⟨rfl, ?_⟩
            rw [hStay, stat, walk_concat_eq_ok.mpr ⟨hDir, rfl⟩, location_append]
            exact stat_eq_dir_iff.mp hDir _ (location_mem_visited here _)
          · exact hEnsure _ _ hMade hDir
      | some entry =>
          have hOld : stat tree here head.reverse = some .dir := by
            have hEntry := entry_of_stat hExisted
            cases entry with
            | dir => exact hExisted
            | file content =>
                exact (hHead _ (location_mem_visited here _) content hEntry).elim
          simp only [Option.isSome_some, if_true, true_or, Bool.true_eq_false, false_and, if_false]
          exact hEnsure tree ∅ (Made.refl tree _) hOld

/-- The directories of a place and no more. -/
def bare (here : Address Name) : Tree Name Content where
  entry := fun place => if place <:+ here then some .dir else none
  root := if_pos (List.nil_suffix)
  parent := by
    intro name place hEntry
    have hInner : name :: place <:+ here := by
      by_contra hOut
      exact hEntry (if_neg hOut)
    exact if_pos ((List.suffix_cons name place).trans hInner)

theorem entry_bare_self (here : Address Name) :
    (bare here : Tree Name Content).entry here = some .dir := if_pos (List.suffix_refl here)

theorem entry_bare (here place : Address Name) :
    (bare here : Tree Name Content).entry place = if place <:+ here then some .dir else none := rfl

end Change

section Read

variable {tree later : Tree Name Content}

/-- A read finds the file at the end of its path when the way there is one of directories. -/
theorem read_concat_eq_ok {here : Address Name} {moves : List (Move Name)} {move : Move Name}
    {content : Content} : read tree here (moves ++ [move]) = .ok content ↔
      stat tree here moves = some .dir ∧
        tree.entry (location here (moves ++ [move])) = some (.file content) := by
  rw [read]
  constructor
  · intro hRead
    split at hRead
    · cases hRead
    · rename_i place hWalk
      obtain ⟨hDir, hPlace⟩ := walk_concat_eq_ok.mp hWalk
      rw [← hPlace]
      split at hRead
      · cases hRead
      · cases hRead
      · rename_i hEntry
        cases hRead
        exact ⟨hDir, hEntry⟩
  · rintro ⟨hDir, hEntry⟩
    rw [walk_concat_eq_ok.mpr ⟨hDir, rfl⟩]
    simp only [hEntry]

end Read

end FileTree
