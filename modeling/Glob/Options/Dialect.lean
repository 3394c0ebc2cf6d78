import Glob.Options
import Glob.Options.Flags

/-! Named sets of options, each for the patterns of one tool. -/

namespace Glob

namespace Options

/-- The patterns of `fnmatch` called with the given flags. -/
def fnmatch (flags : FnmatchFlags) : Options where
  wildcardReach := .withinComponents
  separator := if flags.pathname then some '/' else none
  escapes := !flags.noescape
  explicitLeadingPeriods := flags.period
  ignoresTrailingSeparator := false
  leadingDirectories := flags.leadingDir
  negation := .both
  emptyBracket := .closingIsMember
  unclosedBracket := .literal
  patternLists := flags.extmatch

/-- The patterns of POSIX `glob`. -/
def posix : Options :=
  fnmatch { pathname := true, period := true }

/-- The patterns that bash compares strings with; a `/` is a character like any other. -/
def bash : Options where
  separator := none
  explicitLeadingPeriods := false
  ignoresTrailingSeparator := false
  negation := .both
  emptyBracket := .closingIsMember
  unclosedBracket := .literal

/-- The patterns of zsh with the lists of ksh. -/
def zsh : Options where
  negation := .both

/-- The patterns of `filepath.Match` in Go. -/
def go : Options where
  wildcardReach := .withinComponents
  explicitLeadingPeriods := false
  ignoresTrailingSeparator := false
  negation := .caret
  edgeHyphens := false
  patternLists := false

/-- The patterns of Visual Studio Code. -/
def vscode : Options where
  extraSeparators := ['\\']
  explicitLeadingPeriods := false
  negation := .both
  emptyBracket := .closingIsMember
  patternLists := false
  braces := true
  trailingGlobstarNeedsComponent := false

end Options

inductive Dialect where
  | standard
  | posix
  | fnmatch
  | bash
  | zsh
  | go
  | vscode
  deriving DecidableEq, Repr

namespace Dialect

def all : List Dialect :=
  [standard, posix, fnmatch, bash, zsh, go, vscode]

def name : Dialect → String
  | standard => "default"
  | posix => "posix"
  | fnmatch => "fnmatch"
  | bash => "bash"
  | zsh => "zsh"
  | go => "go"
  | vscode => "vscode"

def options : Dialect → Options
  | standard => {}
  | posix => .posix
  | fnmatch => .fnmatch {}
  | bash => .bash
  | zsh => .zsh
  | go => .go
  | vscode => .vscode

/-- The dialect of a name, in which ASCII letters may have either case. -/
def ofName? (text : String) : Option Dialect :=
  all.find? fun dialect => dialect.name.toLower == text.toLower

/-- What is said of a name that no dialect has. -/
def unknownMessage (text : String) : String :=
  "'" ++ text ++ "' is not a known glob dialect. Valid dialects are " ++
    ", ".intercalate (all.map fun dialect => "'" ++ dialect.name ++ "'")

end Dialect

end Glob
