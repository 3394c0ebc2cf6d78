import Glob.Piece

/-!
The text that is matched, seen under the options of a pattern. Positions are absolute, so that a
rule about the start of a component can look at the character before a window.
-/

namespace Glob

structure Subject where
  text : Array Char
  options : Options

/-- The positions from `first` to `last` in increasing order, both included. -/
def positions (first last : Nat) : List Nat :=
  List.range' first (last + 1 - first)

namespace Subject

def isSeparatorAt (subject : Subject) (i : Nat) : Bool :=
  subject.text[i]?.any subject.options.isSeparator

def atSegmentStart (subject : Subject) (i : Nat) : Bool :=
  i == 0 || subject.isSeparatorAt (i - 1)

/-- Whether there is a `.` at `i` that only a literal may match. -/
def isHiddenPeriod (subject : Subject) (i : Nat) : Bool :=
  subject.options.explicitLeadingPeriods && subject.text[i]? == some '.' &&
    subject.atSegmentStart i

/-- Whether a single character in a pattern may take the character at `i` at all. -/
def isPlainAt (subject : Subject) (i : Nat) : Bool :=
  i < subject.text.size && !subject.isSeparatorAt i && !subject.isHiddenPeriod i

def isMemberAt (subject : Subject) (members : List CharClass) (i : Nat) : Bool :=
  subject.text[i]?.any fun c => members.any (·.contains subject.options.baseLetterRanges c)

def literalAt (subject : Subject) : List Char → Nat → Bool
  | [], _ => true
  | c :: rest, i => subject.text[i]? == some c && subject.literalAt rest (i + 1)

/-- Whether a piece of fixed extent matches the characters from `i` on. -/
def standsAt (subject : Subject) (i : Nat) : Piece → Bool
  | .separator => subject.isSeparatorAt i
  | .literal text => subject.literalAt text i
  | .anyChar => subject.isPlainAt i
  | .bracket members negated => subject.isPlainAt i && subject.isMemberAt members i != negated
  | .star | .globstar | .list .. => false

/-- The first separator from `start` on, or else `stop`. -/
def componentEnd (subject : Subject) (start stop : Nat) : Nat :=
  ((List.range' start (stop - start)).find? subject.isSeparatorAt).getD stop

/-- The ends that an alternative read from `start` could have by its form, the longest first. -/
def candidateEnds (subject : Subject) (alternative : List Piece) (start stop : Nat) : List Nat :=
  match Piece.matchLength? alternative with
  | some length => if start + length ≤ stop then [start + length] else []
  | none =>
    if Piece.maySpanComponents subject.options alternative then
      (positions start stop).reverse
    else
      (positions start (subject.componentEnd start stop)).reverse

end Subject

end Glob
