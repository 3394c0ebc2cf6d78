import Glob.Config
import Glob.Options

/-!
The configuration form of options: an object in which every option is a field. A field that is
missing has its default, and fields with other names are ignored.
-/

namespace Glob

open Config

namespace WildcardReach

def all : List WildcardReach :=
  [singleStarCrosses, doubleStarCrosses, withinComponents]

def name : WildcardReach → String
  | singleStarCrosses => "single-star-matches-full-path"
  | doubleStarCrosses => "double-star-matches-full-path"
  | withinComponents => "path-components-only"

end WildcardReach

namespace NegationMark

def all : List NegationMark :=
  [exclamation, caret, both]

def name : NegationMark → String
  | exclamation => "exclamation-mark"
  | caret => "caret"
  | both => "both"

end NegationMark

namespace EmptyBracket

def all : List EmptyBracket :=
  [drop, reject, closingIsMember]

def name : EmptyBracket → String
  | drop => "allow"
  | reject => "error"
  | closingIsMember => "treat-closing-bracket-as-character"

end EmptyBracket

namespace UnclosedBracket

def all : List UnclosedBracket :=
  [reject, literal]

def name : UnclosedBracket → String
  | reject => "error"
  | literal => "treat-as-literal"

end UnclosedBracket

namespace Options

def toConfig (options : Options) : Fields :=
  [("wildcard-behavior", .string options.wildcardReach.name),
    ("path-separator", .ofOptionalChar options.separator),
    ("additional-path-separators", .ofChars options.extraSeparators),
    ("supports-escaped-characters", .bool options.escapes),
    ("requires-explicit-leading-periods", .bool options.explicitLeadingPeriods),
    ("matches-trailing-path-separator", .bool options.ignoresTrailingSeparator),
    ("match-leading-directories", .bool options.leadingDirectories),
    ("range-negation-character", .string options.negation.name),
    ("empty-range-behavior", .string options.emptyBracket.name),
    ("unclosed-bracket-behavior", .string options.unclosedBracket.name),
    ("supports-range-separator-at-beginning-and-end", .bool options.edgeHyphens),
    ("supports-pattern-lists", .bool options.patternLists),
    ("supports-brace-expansion", .bool options.braces),
    ("trailing-path-wildcard-requires-component", .bool options.trailingGlobstarNeedsComponent),
    ("diacritic-insensitive-ranges", .bool options.baseLetterRanges)]

def ofConfig? (fields : Fields) : Option Options := do
  let absent : Options := {}
  return {
    wildcardReach := ← field? fields "wildcard-behavior"
      (Value.toChoice? WildcardReach.all WildcardReach.name) absent.wildcardReach
    separator := ← field? fields "path-separator" Value.toOptionalChar? absent.separator
    extraSeparators := ← field? fields "additional-path-separators" Value.toChars?
      absent.extraSeparators
    escapes := ← field? fields "supports-escaped-characters" Value.toBool? absent.escapes
    explicitLeadingPeriods := ← field? fields "requires-explicit-leading-periods" Value.toBool?
      absent.explicitLeadingPeriods
    ignoresTrailingSeparator := ← field? fields "matches-trailing-path-separator" Value.toBool?
      absent.ignoresTrailingSeparator
    leadingDirectories := ← field? fields "match-leading-directories" Value.toBool?
      absent.leadingDirectories
    negation := ← field? fields "range-negation-character"
      (Value.toChoice? NegationMark.all NegationMark.name) absent.negation
    emptyBracket := ← field? fields "empty-range-behavior"
      (Value.toChoice? EmptyBracket.all EmptyBracket.name) absent.emptyBracket
    unclosedBracket := ← field? fields "unclosed-bracket-behavior"
      (Value.toChoice? UnclosedBracket.all UnclosedBracket.name) absent.unclosedBracket
    edgeHyphens := ← field? fields "supports-range-separator-at-beginning-and-end" Value.toBool?
      absent.edgeHyphens
    patternLists := ← field? fields "supports-pattern-lists" Value.toBool? absent.patternLists
    braces := ← field? fields "supports-brace-expansion" Value.toBool? absent.braces
    trailingGlobstarNeedsComponent := ← field? fields "trailing-path-wildcard-requires-component"
      Value.toBool? absent.trailingGlobstarNeedsComponent
    baseLetterRanges := ← field? fields "diacritic-insensitive-ranges" Value.toBool?
      absent.baseLetterRanges }

/-- The options with some fields of their configuration form changed. -/
def override? (options : Options) (changes : Fields) : Option Options :=
  ofConfig? (Config.override options.toConfig changes)

end Options

end Glob
