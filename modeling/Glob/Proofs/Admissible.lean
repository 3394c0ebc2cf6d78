import Mathlib.Data.List.Nodup
import Glob.Search.Walk

/-!
The paths below a directory that a search has to ask about, in terms of the file tree alone, and how
they continue from one directory to the next.
-/

namespace Glob

namespace FileTree

variable {tree : FileTree} {location : Location} {name : String} {steps : List String}

theorem names_eq_filterMap : tree.names location = (tree.nodes.map (·.1)).filterMap
    fun place => if place.dropLast = location then place.getLast? else none := by
  rw [List.filterMap_map]
  rfl

theorem eq_concat_of_dropLast {place : Location} (before : place.dropLast = location)
    (last : place.getLast? = some name) : place = location ++ [name] := by
  rw [← before, List.dropLast_append_getLast? name last]

theorem names_nodup : (tree.names location).Nodup := by
  rw [names_eq_filterMap]
  apply List.Nodup.filterMap _ tree.distinct
  intro left right name leftName rightName
  simp only [Option.mem_def, Option.ite_none_right_eq_some] at leftName rightName
  rw [eq_concat_of_dropLast leftName.1 leftName.2, eq_concat_of_dropLast rightName.1 rightName.2]

theorem isName_of_mem_names (member : name ∈ tree.names location) : isName name := by
  rw [names_eq_filterMap] at member
  obtain ⟨place, present, found⟩ := List.mem_filterMap.mp member
  obtain ⟨node, inside, same⟩ := List.mem_map.mp present
  rw [Option.ite_none_right_eq_some] at found
  have proper := tree.named node inside
  rw [same, found.2] at proper
  exact proper

theorem isDirectory_iff :
    tree.isDirectory steps ↔ ∃ location, tree.directory? steps = .ok location := by
  unfold isDirectory
  cases tree.directory? steps <;> simp [Except.isOk, Except.toBool]

end FileTree

def Path.extend (path : Path) (names : List String) : Path :=
  names.foldl Path.join path

@[simp]
theorem Path.extend_nil (path : Path) : path.extend [] = path :=
  rfl

@[simp]
theorem Path.extend_cons (path : Path) (name : String) (names : List String) :
    path.extend (name :: names) = (path.join name).extend names :=
  rfl

namespace Search

variable {tree : FileTree} {settings : Settings} {matcher : Matcher} {visit : Visit}
  {location : Location} {name : String} {names rest : List String}

/-- The entry that some names below a visited directory lead to. -/
def entryAt (tree : FileTree) (settings : Settings) (visit : Visit) (names : List String) :
    Entry where
  path := visit.path.extend names
  relative := visit.relative ++ names
  isDirectory := tree.isDirectory (visit.path.extend names).steps
  metadata :=
    if settings.withMetadata then tree.metadata? (visit.path.extend names).steps else none

def Visit.below (visit : Visit) (location : Location) (name : String) : Visit :=
  ⟨visit.path.join name, visit.relative ++ [name], location :: visit.ancestors⟩

/-- What names make up a path that a search asks about when it visits a directory. -/
structure Admissible (tree : FileTree) (settings : Settings) (matcher : Matcher) (visit : Visit)
    (names : List String) : Prop where
  nonempty : names ≠ []
  /-- Every name is that of an entry of the directory that the names before it lead to. -/
  listed : ∀ i (inside : i < names.length), ∃ location,
    tree.directory? (visit.path.extend (names.take i)).steps = .ok location ∧
      names[i] ∈ tree.names location
  visible : settings.skipHidden → ∀ name ∈ names, ¬isHidden name
  /-- The matcher prunes no directory on the way. -/
  unpruned : ∀ i, 0 < i → i < names.length → ∃ verdict,
    matcher (visit.path.extend (names.take i))
        ("/".intercalate (visit.relative ++ names.take i) ++ "/") = some verdict ∧
      verdict.prunes = false
  /-- No directory on the way is another one of them. -/
  apart : ∀ i j, i < j → j < names.length →
    tree.resolve (visit.path.extend (names.take i)).steps ≠
      tree.resolve (visit.path.extend (names.take j)).steps
  /-- No directory on the way is one that the visited directory was reached through. -/
  outside : ∀ i < names.length, ∀ location ∈ visit.ancestors,
    tree.resolve (visit.path.extend (names.take i)).steps ≠ .ok location

theorem resolve_of_enter (entered : enter tree visit = .ok (some location)) :
    tree.resolve visit.path.steps = .ok location :=
  (FileTree.directory_eq_ok_iff.mp (enter_eq_some_iff.mp entered).1).1

theorem enter_unique {other : Location} (entered : enter tree visit = .ok (some location))
    (again : enter tree visit = .ok (some other)) : location = other :=
  Option.some.inj (Except.ok.inj (entered.symm.trans again))

theorem exists_enter (directory : tree.isDirectory visit.path.steps) :
    ∃ location?, enter tree visit = .ok location? := by
  obtain ⟨location, found⟩ := FileTree.isDirectory_iff.mp directory
  obtain ⟨resolved, _⟩ := FileTree.directory_eq_ok_iff.mp found
  simp only [enter, found, resolved]
  exact ⟨_, rfl⟩

theorem descends_iff {entry : Entry} : descends matcher entry ↔ entry.isDirectory ∧
    ∃ verdict, matcher entry.path (entry.relativeText ++ "/") = some verdict ∧
      verdict.prunes = false := by
  unfold descends Entry.offeredText
  cases entry.isDirectory <;> simp [Option.any_eq_true]

namespace Admissible

theorem enters (admissible : Admissible tree settings matcher visit (name :: rest)) :
    ∃ location, enter tree visit = .ok (some location) ∧ name ∈ tree.names location := by
  obtain ⟨location, found, member⟩ := admissible.listed 0 (by simp)
  rw [List.take_zero, Path.extend_nil] at found
  obtain ⟨resolved, _⟩ := FileTree.directory_eq_ok_iff.mp found
  have fresh : location ∉ visit.ancestors := by
    intro before
    exact admissible.outside 0 (by simp) location before resolved
  exact ⟨location, enter_eq_some_iff.mpr ⟨found, fresh⟩, member⟩

theorem enters_visit (admissible : Admissible tree settings matcher visit names) :
    ∃ location, enter tree visit = .ok (some location) := by
  cases names with
  | nil => exact absurd rfl admissible.nonempty
  | cons name rest =>
      obtain ⟨location, entered, _⟩ := admissible.enters
      exact ⟨location, entered⟩

theorem descends_head (admissible : Admissible tree settings matcher visit (name :: rest))
    (more : rest ≠ []) : descends matcher (entryAt tree settings visit [name]) := by
  have longer : 1 < (name :: rest).length := by
    simpa using List.length_pos_iff.mpr more
  obtain ⟨next, opened, _⟩ := admissible.listed 1 longer
  obtain ⟨verdict, asked, kept⟩ := admissible.unpruned 1 Nat.one_pos longer
  exact descends_iff.mpr ⟨FileTree.isDirectory_iff.mpr ⟨next, opened⟩, verdict, asked, kept⟩

theorem tail (admissible : Admissible tree settings matcher visit (name :: rest))
    (entered : enter tree visit = .ok (some location)) (more : rest ≠ []) :
    Admissible tree settings matcher (visit.below location name) rest := by
  have resolved := resolve_of_enter entered
  constructor
  · exact more
  · intro i inside
    exact admissible.listed (i + 1) (Nat.succ_lt_succ inside)
  · intro hidden other member
    exact admissible.visible hidden other (List.mem_cons_of_mem name member)
  · intro i _ inside
    have asked := admissible.unpruned (i + 1) (Nat.succ_pos i) (Nat.succ_lt_succ inside)
    rw [List.take_succ_cons, List.append_cons] at asked
    exact asked
  · intro i j before inside
    exact admissible.apart (i + 1) (j + 1) (Nat.succ_lt_succ before) (Nat.succ_lt_succ inside)
  · intro i inside place ancestor
    rcases List.mem_cons.mp ancestor with same | older
    · have differ := admissible.apart 0 (i + 1) (Nat.succ_pos i) (Nat.succ_lt_succ inside)
      rw [List.take_zero, Path.extend_nil, resolved, ← same] at differ
      exact differ.symm
    · exact admissible.outside (i + 1) (Nat.succ_lt_succ inside) place older

theorem single (entered : enter tree visit = .ok (some location))
    (member : name ∈ tree.names location) (visible : settings.skipHidden → ¬isHidden name) :
    Admissible tree settings matcher visit [name] := by
  obtain ⟨found, fresh⟩ := enter_eq_some_iff.mp entered
  have resolved := resolve_of_enter entered
  constructor
  · exact List.cons_ne_nil name []
  · intro i inside
    obtain rfl := Nat.lt_one_iff.mp inside
    exact ⟨location, found, member⟩
  · intro hidden other place
    obtain rfl := List.mem_singleton.mp place
    exact visible hidden
  · intro i positive inside
    exact absurd positive (Nat.not_lt.mpr (Nat.le_of_lt_succ inside))
  · intro i j before inside
    exact absurd before (by simp at inside; omega)
  · intro i inside place ancestor
    obtain rfl := Nat.lt_one_iff.mp inside
    rw [List.take_zero, Path.extend_nil, resolved]
    intro same
    exact fresh (Except.ok.inj same ▸ ancestor)

theorem cons (entered : enter tree visit = .ok (some location))
    (member : name ∈ tree.names location) (visible : settings.skipHidden → ¬isHidden name)
    (descends : descends matcher (entryAt tree settings visit [name]))
    (below : Admissible tree settings matcher (visit.below location name) rest) :
    Admissible tree settings matcher visit (name :: rest) := by
  obtain ⟨found, fresh⟩ := enter_eq_some_iff.mp entered
  have resolved := resolve_of_enter entered
  constructor
  · exact List.cons_ne_nil name rest
  · intro i inside
    cases i with
    | zero => exact ⟨location, found, member⟩
    | succ i => exact below.listed i (Nat.lt_of_succ_lt_succ inside)
  · intro hidden other place
    rcases List.mem_cons.mp place with same | later
    · exact same ▸ visible hidden
    · exact below.visible hidden other later
  · intro i _ inside
    match i with
    | 1 => exact (descends_iff.mp descends).2
    | i + 2 =>
      have asked := below.unpruned (i + 1) (Nat.succ_pos i) (Nat.lt_of_succ_lt_succ inside)
      rw [List.take_succ_cons, List.append_cons]
      exact asked
  · intro i j before inside
    match i, j with
    | 0, j + 1 =>
      rw [List.take_zero, Path.extend_nil, resolved]
      exact (below.outside j (Nat.lt_of_succ_lt_succ inside) location List.mem_cons_self).symm
    | i + 1, j + 1 =>
      exact below.apart i j (Nat.lt_of_succ_lt_succ before) (Nat.lt_of_succ_lt_succ inside)
  · intro i inside place ancestor
    cases i with
    | zero =>
      rw [List.take_zero, Path.extend_nil, resolved]
      intro same
      exact fresh (Except.ok.inj same ▸ ancestor)
    | succ i =>
      exact below.outside i (Nat.lt_of_succ_lt_succ inside) place (List.mem_cons_of_mem _ ancestor)

end Admissible

theorem admissible_cons_iff : Admissible tree settings matcher visit (name :: rest) ↔
    ∃ location, enter tree visit = .ok (some location) ∧ name ∈ tree.names location ∧
      (settings.skipHidden → ¬isHidden name) ∧
      (rest = [] ∨ descends matcher (entryAt tree settings visit [name]) ∧
        Admissible tree settings matcher (visit.below location name) rest) := by
  constructor
  · intro admissible
    obtain ⟨location, entered, member⟩ := admissible.enters
    refine ⟨location, entered, member, ?_, ?_⟩
    · intro hidden
      exact admissible.visible hidden name List.mem_cons_self
    · by_cases last : rest = []
      · exact .inl last
      · exact .inr ⟨admissible.descends_head last, admissible.tail entered last⟩
  · intro ⟨location, entered, member, visible, rests⟩
    rcases rests with last | ⟨descends, below⟩
    · rw [last]
      exact .single entered member visible
    · exact .cons entered member visible descends below

/-- A relative path is divided into its names again, since no name has a slash in it. -/
theorem splitOn_intercalate_names (nonempty : names ≠ []) (proper : ∀ name ∈ names, isName name) :
    ("/".intercalate names).toList.splitOn '/' = names.map String.toList := by
  rw [String.toList_intercalate]
  apply List.splitOn_intercalate '/'
  · intro part member
    obtain ⟨name, inside, rfl⟩ := List.mem_map.mp member
    have good := proper name inside
    simp only [isName, Bool.and_eq_true, Bool.not_eq_true', List.contains_eq_mem,
      decide_eq_false_iff_not] at good
    exact good.2
  · simpa using nonempty

theorem eq_of_intercalate_eq {others : List String} (nonempty : names ≠ [])
    (nonemptyOthers : others ≠ []) (proper : ∀ name ∈ names, isName name)
    (properOthers : ∀ name ∈ others, isName name)
    (same : "/".intercalate names = "/".intercalate others) : names = others := by
  apply List.map_injective_iff.mpr fun _ _ => String.toList_injective
  rw [← splitOn_intercalate_names nonempty proper,
    ← splitOn_intercalate_names nonemptyOthers properOthers, same]

theorem Admissible.isName_of_mem (admissible : Admissible tree settings matcher visit names)
    (member : name ∈ names) : isName name := by
  obtain ⟨i, inside, same⟩ := List.mem_iff_getElem.mp member
  obtain ⟨location, _, listed⟩ := admissible.listed i inside
  exact FileTree.isName_of_mem_names (same ▸ listed)

end Search

end Glob
