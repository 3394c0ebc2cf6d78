/-!
File trees with symbolic links, and what a path leads to in them. The root is a directory of every
tree. A link leads to a path from the root. The root has a path of its own in a larger tree, of which
only the length counts.
-/

namespace Glob

/-- The names from the root to a file or directory, none of them that of a link. -/
abbrev Location := List String

inductive Node where
  | directory
  | file (size : Nat)
  | link (target : List String)
  deriving DecidableEq, Repr

/-- Whether a directory can hold something under this name. -/
def isName (name : String) : Bool :=
  name ∉ ["", ".", ".."] && !name.toList.contains '/'

structure FileTree where
  nodes : List (Location × Node) := []
  /-- The length of the path of the root, in bytes. -/
  rootLength : Nat := 0
  /-- There is at most one node in a place. -/
  distinct : (nodes.map (·.1)).Nodup := by simp
  named : ∀ node ∈ nodes, node.1.getLast?.any isName := by simp
  deriving Repr

/-- Why a path leads to nothing that can be used. -/
inductive PathError where
  | notFound
  | notDirectory
  | linkLoop
  /-- A name or the whole path is too long. -/
  | tooLong
  /-- The character NUL is in the path. -/
  | nulInPath
  /-- There is something else in the place of what should be made. -/
  | occupied
  deriving DecidableEq, Repr

namespace FileTree

def node? (tree : FileTree) (location : Location) : Option Node :=
  if location = [] then some .directory else tree.nodes.lookup location

def directories (tree : FileTree) : List Location :=
  [] :: (tree.nodes.filter (·.2 = .directory)).map (·.1)

def isDirectoryAt (tree : FileTree) (location : Location) : Bool :=
  tree.node? location == some .directory

def names (tree : FileTree) (location : Location) : List String :=
  tree.nodes.filterMap fun (place, _) =>
    if place.dropLast = location then place.getLast? else none

/-- The longest name that a directory can hold, in bytes. -/
def longestName : Nat := 255

/-- The longest path that can be looked up, in bytes. -/
def longestPath : Nat := 4095

/-- The most links that are followed for one path. -/
def linkLimit : Nat := 40

/-- Goes through the steps of a path from a location on; `jump` says where the steps after a link
lead, taken together with its target. -/
def follow (tree : FileTree) (jump : List String → Except PathError Location)
    (here : Location) : List String → Except PathError Location
  | [] => .ok here
  | step :: rest =>
    if !tree.isDirectoryAt here then .error .notDirectory
    else if step = "" || step = "." then tree.follow jump here rest
    else if step = ".." then tree.follow jump here.dropLast rest
    else if longestName < step.utf8ByteSize then .error .tooLong
    else
      match tree.node? (here ++ [step]) with
      | none => .error .notFound
      | some (.link target) => jump (target ++ rest)
      | some .directory | some (.file _) => tree.follow jump (here ++ [step]) rest

/-- Where the steps lead from the root if at most `links` links are followed. -/
def resolveWithin (tree : FileTree) : (links : Nat) → List String → Except PathError Location
  | 0 => tree.follow (fun _ => .error .linkLoop) []
  | links + 1 => tree.follow (tree.resolveWithin links) []

/-- The length of the path of these steps, in bytes. A slash comes before every step. -/
def pathLength (tree : FileTree) (steps : List String) : Nat :=
  steps.foldl (fun length step => length + 1 + step.utf8ByteSize) tree.rootLength

/-- What is wrong with a path as such, before anything is looked up. -/
def flaw? (tree : FileTree) (steps : List String) : Option PathError :=
  if steps.any (·.toList.contains '\x00') then some .nulInPath
  else if longestPath < tree.pathLength steps then some .tooLong
  else none

def resolve (tree : FileTree) (steps : List String) : Except PathError Location :=
  match tree.flaw? steps with
  | some flaw => .error flaw
  | none => tree.resolveWithin linkLimit steps

def directory? (tree : FileTree) (steps : List String) : Except PathError Location :=
  match tree.resolve steps with
  | .error reason => .error reason
  | .ok location => if tree.isDirectoryAt location then .ok location else .error .notDirectory

def isDirectory (tree : FileTree) (steps : List String) : Bool :=
  (tree.directory? steps).isOk

/-- What is known of the file or directory that a path leads to. -/
inductive Metadata where
  | directory
  | file (length : Nat)
  deriving DecidableEq, Repr

def metadata? (tree : FileTree) (steps : List String) : Option Metadata := do
  let location ← (tree.resolve steps).toOption
  match ← tree.node? location with
  | .directory => some .directory
  | .file size => some (.file size)
  | .link _ => none

theorem mem_directories {tree : FileTree} {location : Location}
    (directory : tree.isDirectoryAt location) : location ∈ tree.directories := by
  simp only [isDirectoryAt, node?, beq_iff_eq] at directory
  split at directory
  · simp_all [directories]
  · obtain ⟨before, after, same, _⟩ := List.lookup_eq_some_iff.1 directory
    simp [directories, same]

theorem directory_eq_ok_iff {tree : FileTree} {steps : List String} {location : Location} :
    tree.directory? steps = .ok location ↔
      tree.resolve steps = .ok location ∧ tree.isDirectoryAt location := by
  unfold directory?
  cases tree.resolve steps with
  | error reason => exact iff_of_false nofun nofun
  | ok found =>
      simp only [Except.ok.injEq]
      constructor
      · intro same
        split at same
        · next directory =>
            cases same
            exact ⟨rfl, directory⟩
        · cases same
      · rintro ⟨rfl, directory⟩
        exact if_pos directory

end FileTree

end Glob
