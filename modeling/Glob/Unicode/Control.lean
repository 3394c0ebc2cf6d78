import Glob.Unicode.Run

/-! The Unicode category of control characters. -/

namespace Glob.Unicode

def control : List Run :=
  [⟨0x0, 0x1F, 1⟩, ⟨0x7F, 0x9F, 1⟩]

/-- Whether `c` is a control character (Cc). -/
def isControl (c : Char) : Bool :=
  inRuns control c

end Glob.Unicode
