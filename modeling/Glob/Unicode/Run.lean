/-! Sets of code points, written as runs. -/

namespace Glob.Unicode

/-- The code points from `first` to `last` at a fixed distance from each other. -/
structure Run where
  first : Nat
  last : Nat
  step : Nat
  deriving DecidableEq, Repr

namespace Run

def contains (run : Run) (code : Nat) : Bool :=
  run.first ≤ code && code ≤ run.last && (code - run.first) % run.step == 0

end Run

/-- Whether some run has the code point of `c`. -/
def inRuns (runs : List Run) (c : Char) : Bool :=
  runs.any fun run => run.contains c.toNat

end Glob.Unicode
