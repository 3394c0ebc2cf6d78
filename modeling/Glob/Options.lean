/-! How patterns are written and how far they reach: the options every other part takes. -/

namespace Glob

/-- How far `*` and `**` may reach. -/
inductive WildcardReach where
  /-- A single `*` already crosses separators. -/
  | singleStarCrosses
  /-- A `*` stays within its component, a `**` crosses separators. -/
  | doubleStarCrosses
  /-- No wildcard matches a separator, and repeating `*` changes nothing. -/
  | withinComponents
  deriving DecidableEq, Repr

/-- The characters that negate a bracket expression when they stand right after its `[`. -/
inductive NegationMark where
  | exclamation
  | caret
  | both
  deriving DecidableEq, Repr

/-- What becomes of a bracket expression without members. -/
inductive EmptyBracket where
  /-- It is left out of the pattern. -/
  | drop
  /-- The pattern is refused. -/
  | reject
  /-- A `]` in first place is a member, so the expression is not empty. -/
  | closingIsMember
  deriving DecidableEq, Repr

/-- What becomes of a `[` without its `]`. -/
inductive UnclosedBracket where
  /-- The pattern is refused. -/
  | reject
  /-- It stands for itself, and reading goes on right after it. -/
  | literal
  deriving DecidableEq, Repr

/-- How a pattern is read and matched. -/
structure Options where
  wildcardReach : WildcardReach := .doubleStarCrosses
  /-- The separator of patterns and texts; without one a pattern has no components. -/
  separator : Option Char := some '/'
  /-- Characters that separate components in texts, but never in patterns. -/
  extraSeparators : List Char := []
  /-- A backslash makes the next character literal. -/
  escapes : Bool := true
  /-- Wildcards and brackets never match a `.` at the start of a component. -/
  explicitLeadingPeriods : Bool := true
  /-- A text that does not match is tried again without one separator at its end. -/
  ignoresTrailingSeparator : Bool := true
  /-- A match may end at any separator of the text. -/
  leadingDirectories : Bool := false
  negation : NegationMark := .exclamation
  emptyBracket : EmptyBracket := .reject
  unclosedBracket : UnclosedBracket := .reject
  /-- A `-` at either end of a bracket expression is a member. -/
  edgeHyphens : Bool := true
  /-- The lists `?(…)`, `*(…)`, `+(…)`, `@(…)` and `!(…)` are recognized. -/
  patternLists : Bool := true
  /-- Brace groups are expanded before a pattern is read. -/
  braces : Bool := false
  /-- A `/**` at the end needs a component to match. -/
  trailingGlobstarNeedsComponent : Bool := true
  /-- A character is also in a bracket range when its base letter is. -/
  baseLetterRanges : Bool := false
  deriving DecidableEq, Repr

namespace NegationMark

def isNegation : NegationMark → Char → Bool
  | exclamation, c => c == '!'
  | caret, c => c == '^'
  | both, c => c == '!' || c == '^'

end NegationMark

namespace Options

/-- Whether `c` separates components in a text. -/
def isSeparator (options : Options) (c : Char) : Bool :=
  options.separator == some c || options.extraSeparators.contains c

def wildcardsCross (options : Options) : Bool :=
  options.wildcardReach != .withinComponents

end Options

end Glob
