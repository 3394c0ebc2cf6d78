import Glob.Search.Entry

/-!
The walk through a file tree. A directory is listed again wherever a link leads back to it, but not
below itself, so a branch of the walk is never longer than the tree has directories.
-/

namespace Glob

namespace Search

/-- A directory to be searched, and the locations of the directories it was reached through. -/
structure Visit where
  path : Path
  relative : List String
  ancestors : List Location
  deriving DecidableEq, Repr

def Visit.first (base : Path) : Visit :=
  ⟨base, [], []⟩

inductive Ending where
  | finished
  | failed (error : Error)
  /-- The matcher broke down. -/
  | brokenDown
  deriving DecidableEq, Repr

/-- What a walk did: the entries it asked about, those it reported, and how it ended. -/
structure Trace where
  offered : List Entry := []
  reported : List Entry := []
  ending : Ending := .finished
  deriving DecidableEq, Repr

namespace Trace

/-- Both traces together; the first ending that is not regular counts. -/
def append (left right : Trace) : Trace where
  offered := left.offered ++ right.offered
  reported := left.reported ++ right.reported
  ending := if left.ending = .finished then right.ending else left.ending

def join (traces : List Trace) : Trace :=
  traces.foldr append {}

end Trace

def isHidden (name : String) : Bool :=
  name.toList.head? == some '.'

/-- The entries of the directory at `location`, in the order of the tree. -/
def list (tree : FileTree) (settings : Settings) (visit : Visit) (location : Location) :
    List Entry :=
  let names := (tree.names location).filter fun name => !(settings.skipHidden && isHidden name)
  names.map fun name =>
    let path := visit.path.join name
    { path
      relative := visit.relative ++ [name]
      isDirectory := tree.isDirectory path.steps
      metadata := if settings.withMetadata then tree.metadata? path.steps else none }

/-- Asks the matcher about one entry after the other, until it breaks down. -/
def ask (matcher : Matcher) : List Entry → Trace
  | [] => {}
  | entry :: rest =>
    match matcher entry.path entry.offeredText with
    | none => { offered := [entry], ending := .brokenDown }
    | some verdict =>
      Trace.append { offered := [entry], reported := if verdict.reports then [entry] else [] }
        (ask matcher rest)

def descends (matcher : Matcher) (entry : Entry) : Bool :=
  entry.isDirectory && (matcher entry.path entry.offeredText).any fun verdict => !verdict.prunes

/-- The location of the directory to be searched, unless it is among its own ancestors. -/
def enter (tree : FileTree) (visit : Visit) : Except Error (Option Location) :=
  match tree.directory? visit.path.steps with
  | .error reason => .error (.unreadable visit.path reason)
  | .ok _ =>
    match tree.resolve visit.path.steps with
    | .error reason => .error (.unlocated visit.path reason)
    | .ok location => .ok (if location ∈ visit.ancestors then none else some location)

/-- The number of directories that are not among the ancestors. -/
def remaining (tree : FileTree) (ancestors : List Location) : Nat :=
  (tree.directories.filter (· ∉ ancestors)).length

theorem remaining_cons_lt {tree : FileTree} {ancestors : List Location} {location : Location}
    (directory : location ∈ tree.directories) (fresh : location ∉ ancestors) :
    remaining tree (location :: ancestors) < remaining tree ancestors := by
  have same : tree.directories.filter (· ∉ location :: ancestors) =
      (tree.directories.filter (· ∉ ancestors)).filter (· ≠ location) := by
    simp [List.filter_filter, not_or]
  unfold remaining
  rw [same, List.length_filter_lt_length_iff_exists]
  exact ⟨location, by simp [directory, fresh], by simp⟩

theorem enter_eq_some_iff {tree : FileTree} {visit : Visit} {location : Location} :
    enter tree visit = .ok (some location) ↔
      tree.directory? visit.path.steps = .ok location ∧ location ∉ visit.ancestors := by
  constructor
  · intro entered
    unfold enter at entered
    split at entered
    · cases entered
    · rename_i found
      obtain ⟨resolved, _⟩ := FileTree.directory_eq_ok_iff.mp found
      rw [resolved] at entered
      simp only [Except.ok.injEq, Option.ite_none_left_eq_some, Option.some.injEq] at entered
      obtain ⟨fresh, same⟩ := entered
      exact ⟨same ▸ found, same ▸ fresh⟩
  · intro ⟨found, fresh⟩
    obtain ⟨resolved, _⟩ := FileTree.directory_eq_ok_iff.mp found
    simp only [enter, found, resolved, if_neg fresh]

theorem directory_of_enter {tree : FileTree} {visit : Visit} {location : Location}
    (entered : enter tree visit = .ok (some location)) :
    location ∈ tree.directories ∧ location ∉ visit.ancestors := by
  obtain ⟨found, fresh⟩ := enter_eq_some_iff.mp entered
  obtain ⟨_, directory⟩ := FileTree.directory_eq_ok_iff.mp found
  exact ⟨FileTree.mem_directories directory, fresh⟩

theorem remaining_lt_of_enter {tree : FileTree} {visit : Visit} {location : Location}
    (entered : enter tree visit = .ok (some location)) :
    remaining tree (location :: visit.ancestors) < remaining tree visit.ancestors :=
  remaining_cons_lt (directory_of_enter entered).1 (directory_of_enter entered).2

/-- Searches a directory, and after it those of its directories that the matcher does not prune. -/
def walk (tree : FileTree) (settings : Settings) (matcher : Matcher) (visit : Visit) : Trace :=
  match _entered : enter tree visit with
  | .error error => { ending := .failed error }
  | .ok none => {}
  | .ok (some location) =>
    let entries := list tree settings visit location
    let asked := ask matcher entries
    if asked.ending = .finished then
      asked.append (Trace.join ((entries.filter (descends matcher)).map fun entry =>
        walk tree settings matcher ⟨entry.path, entry.relative, location :: visit.ancestors⟩))
    else asked
termination_by remaining tree visit.ancestors
decreasing_by exact remaining_lt_of_enter _entered

end Search

end Glob
