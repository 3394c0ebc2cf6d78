import Glob.Braces
import Glob.Match
import Glob.Pattern.Sequence

/-! Patterns: compiled once, then matched against any number of texts. -/

namespace Glob

structure Pattern where
  source : String
  /-- The sequences of pieces, one for each text that the brace groups stand for. -/
  alternatives : List (List Piece)
  options : Options

namespace Pattern

/-- The texts that a pattern stands for. -/
def expansions (options : Options) (source : String) : List (List Char) :=
  if options.braces then Braces.expand options.escapes source.toList else [source.toList]

def readAlternative (options : Options) (text : List Char) : Except PatternError (List Piece) :=
  (Piece.ofText options text).mapError fun failure => failure.within text

/-- Compiles a pattern. If several of its expansions are wrong, the first one is reported. -/
def compile (options : Options) (source : String) : Except PatternError Pattern := do
  let alternatives ← (expansions options source).mapM (readAlternative options)
  return { source, alternatives, options }

/-- Whether some alternative matches the first `stop` characters. -/
def acceptsUpTo (pattern : Pattern) (text : Array Char) (stop : Nat) : Bool :=
  pattern.alternatives.any fun pieces =>
    (Subject.mk text pattern.options).accepts pieces 0 stop pattern.options.leadingDirectories

/-- Whether the pattern matches the whole text. A text that ends with a separator may also be
matched without it. -/
def acceptsChars (pattern : Pattern) (chars : List Char) : Bool :=
  pattern.acceptsUpTo chars.toArray chars.length ||
    pattern.options.ignoresTrailingSeparator && chars.getLast?.any pattern.options.isSeparator &&
      pattern.acceptsUpTo chars.toArray (chars.length - 1)

def accepts (pattern : Pattern) (text : String) : Bool :=
  pattern.acceptsChars text.toList

end Pattern

end Glob
