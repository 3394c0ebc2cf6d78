import Glob.FileTree

/-! Making directories, files and links in a file tree. -/

namespace Glob

namespace FileTree

/-- Puts a node in its place, whatever was there. Nothing is put where the last part of the location
is not a name. -/
def put (tree : FileTree) (location : Location) (node : Node) : FileTree :=
  if named : location.getLast?.any isName then
    { tree with
      nodes := tree.nodes.filter (·.1 ≠ location) ++ [(location, node)]
      distinct := by
        have others : ((tree.nodes.filter (·.1 ≠ location)).map (·.1)).Nodup :=
          tree.distinct.sublist (List.filter_sublist.map _)
        have fresh : location ∉ (tree.nodes.filter (·.1 ≠ location)).map (·.1) := by simp
        simp only [List.map_append, List.map_cons, List.map_nil]
        exact List.nodup_append.2 ⟨others, by simp, by grind⟩
      named := by
        intro other member
        rcases List.mem_append.1 member with kept | new
        · exact tree.named other (List.mem_filter.1 kept).1
        · rw [List.mem_singleton.1 new]
          exact named }
  else tree

/-- Makes the directories that the steps of a path lead through as far as they are missing, and
returns the location of the last one. -/
def makeDirectories (tree : FileTree) (here : Location) :
    List String → Except PathError (FileTree × Location)
  | [] => .ok (tree, here)
  | step :: rest =>
    if step = "" || step = "." then tree.makeDirectories here rest
    else if step = ".." then tree.makeDirectories here.dropLast rest
    else if longestName < step.utf8ByteSize then .error .tooLong
    else
      match tree.node? (here ++ [step]) with
      | none => (tree.put (here ++ [step]) .directory).makeDirectories (here ++ [step]) rest
      | some .directory => tree.makeDirectories (here ++ [step]) rest
      | some (.file _) => .error .notDirectory
      | some (.link target) => do
        let location ← tree.directory? target
        tree.makeDirectories location rest

/-- Where a new node with the given path belongs: a name in a directory that exists. -/
def place? (tree : FileTree) (steps : List String) : Except PathError Location := do
  let parent ← tree.directory? steps.dropLast
  let name := steps.getLastD ""
  if name ∈ ["", ".", ".."] then throw .occupied
  else if longestName < name.utf8ByteSize then throw .tooLong
  else return parent ++ [name]

/-- Where the contents of a file go that is written under the given path. A link is followed, also
if nothing is at its end yet. -/
def filePlace? (tree : FileTree) : (links : Nat) → List String → Except PathError Location
  | 0, _ => .error .linkLoop
  | links + 1, steps => do
    let location ← tree.place? steps
    match tree.node? location with
    | some (.link target) => tree.filePlace? links target
    | some .directory => throw .occupied
    | some (.file _) | none => return location

def check (tree : FileTree) (steps : List String) : Except PathError Unit :=
  match tree.flaw? steps with
  | some flaw => .error flaw
  | none => .ok ()

def makeDirectory (tree : FileTree) (steps : List String) : Except PathError FileTree := do
  tree.check steps
  let (tree, _) ← tree.makeDirectories [] steps
  return tree

def writeFile (tree : FileTree) (steps : List String) (size : Nat) : Except PathError FileTree := do
  tree.check steps
  let (tree, _) ← tree.makeDirectories [] steps.dropLast
  let location ← tree.filePlace? (linkLimit + 1) steps
  return tree.put location (.file size)

def makeLink (tree : FileTree) (steps target : List String) : Except PathError FileTree := do
  tree.check steps
  tree.check target
  let (tree, _) ← tree.makeDirectories [] steps.dropLast
  let location ← tree.place? steps
  match tree.node? location with
  | some _ => throw .occupied
  | none => return tree.put location (.link target)

end FileTree

end Glob
