import Glob.Unicode.Alphabetic
import Glob.Unicode.Numeric
import Glob.Unicode.Lowercase
import Glob.Unicode.Uppercase
import Glob.Unicode.WhiteSpace
import Glob.Unicode.Control
import Glob.Unicode.BaseLetter

/-! The members of bracket expressions: ranges of characters and the named classes of POSIX. -/

namespace Glob

open Unicode

inductive PosixClass where
  | alnum
  | alpha
  | blank
  | cntrl
  | digit
  | graph
  | lower
  | print
  | punct
  | space
  | upper
  | xdigit
  deriving DecidableEq, Repr

namespace PosixClass

def all : List PosixClass :=
  [alnum, alpha, blank, cntrl, digit, graph, lower, print, punct, space, upper, xdigit]

/-- The name between `[:` and `:]`. -/
def name : PosixClass → String
  | alnum => "alnum"
  | alpha => "alpha"
  | blank => "blank"
  | cntrl => "cntrl"
  | digit => "digit"
  | graph => "graph"
  | lower => "lower"
  | print => "print"
  | punct => "punct"
  | space => "space"
  | upper => "upper"
  | xdigit => "xdigit"

def ofName? (text : String) : Option PosixClass :=
  all.find? fun named => named.name == text

def isAscii (c : Char) : Bool :=
  c.toNat < 128

def isAsciiPunctuation (c : Char) : Bool :=
  ('!' ≤ c && c ≤ '/') || (':' ≤ c && c ≤ '@') || ('[' ≤ c && c ≤ '\x60') ||
    ('\x7b' ≤ c && c ≤ '~')

def isHexDigit (c : Char) : Bool :=
  c.isDigit || ('a' ≤ c && c ≤ 'f') || ('A' ≤ c && c ≤ 'F')

def isAlphanumeric (c : Char) : Bool :=
  isAlphabetic c || isNumeric c

/-- Digits are ASCII only; beyond ASCII, punctuation is what is left by the other classes. -/
def contains : PosixClass → Char → Bool
  | alnum, c => isAlphanumeric c
  | alpha, c => isAlphabetic c
  | blank, c => c == ' ' || c == '\t'
  | cntrl, c => isControl c
  | digit, c => c.isDigit
  | graph, c => !isControl c && !isWhiteSpace c
  | lower, c => isLowercase c
  | print, c => !isControl c
  | punct, c =>
    isAsciiPunctuation c ||
      (!isAscii c && !isAlphanumeric c && !isWhiteSpace c && !isControl c)
  | space, c => isWhiteSpace c
  | upper, c => isUppercase c
  | xdigit, c => isHexDigit c

end PosixClass

/-- One member of a bracket expression. -/
inductive CharClass where
  | range (lower upper : Char)
  | named (name : PosixClass)
  deriving DecidableEq, Repr

namespace CharClass

def single (c : Char) : CharClass :=
  range c c

/-- Whether the class has `c`; with `baseLetters` a range also has what its base letters lend. -/
def contains (baseLetters : Bool) : CharClass → Char → Bool
  | range lower upper, c =>
    (lower ≤ c && c ≤ upper) ||
      (baseLetters && lower ≤ baseLetter c && baseLetter c ≤ upper)
  | named name, c => name.contains c

end CharClass

end Glob
