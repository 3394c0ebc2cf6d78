import Glob.FileTree
import Glob.FileTree.Path

/-! What a search asks its matcher, what it reports, and how it can fail. -/

namespace Glob

namespace Search

/-- What a matcher says of an entry: whether it is reported, and whether the search stays out of
it. -/
structure Verdict where
  reports : Bool
  prunes : Bool
  deriving DecidableEq, Repr

namespace Verdict

def accept : Verdict := ⟨true, false⟩

def ignore : Verdict := ⟨false, false⟩

def prune : Verdict := ⟨false, true⟩

/-- Report a directory, but nothing in it. -/
def acceptOnly : Verdict := ⟨true, true⟩

end Verdict

/-- An entry of a directory, with its path from where the search began. A link to a directory
counts as one. -/
structure Entry where
  path : Path
  relative : List String
  isDirectory : Bool
  metadata : Option FileTree.Metadata
  deriving DecidableEq, Repr

namespace Entry

def relativeText (entry : Entry) : String :=
  "/".intercalate entry.relative

/-- The relative path that a matcher is asked about; that of a directory ends with a slash. -/
def offeredText (entry : Entry) : String :=
  if entry.isDirectory then entry.relativeText ++ "/" else entry.relativeText

end Entry

/-- A matcher is asked with the path of an entry and the text of its relative path. It gives a
verdict, or breaks down and gives none. -/
abbrev Matcher := Path → String → Option Verdict

structure Settings where
  /-- Leave out entries whose name begins with a period, and all that is in them. -/
  skipHidden : Bool := true
  /-- Read the metadata of every entry. -/
  withMetadata : Bool := false
  deriving DecidableEq, Repr

inductive Error where
  /-- A directory cannot be listed. -/
  | unreadable (path : Path) (reason : PathError)
  /-- A directory can be listed, but not located. -/
  | unlocated (path : Path) (reason : PathError)
  /-- The search was given up before it ended. -/
  | cancelled
  deriving DecidableEq, Repr

namespace Error

/-- What is said of an error, where the root is called `mount`. -/
def message (mount : String) : Error → String
  | unreadable path _ =>
    "failed to read the contents of directory '" ++ path.display mount ++ "'"
  | unlocated path _ =>
    "failed to determine the canonical path of '" ++ path.display mount ++ "'"
  | cancelled => "the search was cancelled"

end Error

end Search

end Glob
