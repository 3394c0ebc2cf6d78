/-! Paths below the root of a file tree, as they are written. -/

namespace Glob

/-- The parts of a path between its slashes. The root itself has none. -/
structure Path where
  steps : List String
  deriving DecidableEq, Repr

namespace Path

def root : Path :=
  ⟨[]⟩

/-- The path written as `text` after a slash. -/
def ofText (text : String) : Path :=
  ⟨text.splitOn "/"⟩

/-- A path one step longer. A path that ends with a slash needs no other. -/
def join (path : Path) (name : String) : Path :=
  if path.steps.getLast? = some "" then ⟨path.steps.dropLast ++ [name]⟩ else ⟨path.steps ++ [name]⟩

/-- The path as it is written, where the root is called `mount`. -/
def display (mount : String) (path : Path) : String :=
  mount ++ String.join (path.steps.map ("/" ++ ·))

/-- The path from the root without the steps that lead nowhere. -/
def plain (path : Path) : String :=
  "/".intercalate (path.steps.filter fun step => step != "" && step != ".")

end Path

end Glob
