import Glob.CharClass
import Glob.Options

/-! The pieces that a pattern consists of, and what their form alone says about their matches. -/

namespace Glob

/-- How often the alternatives of a list may occur. -/
inductive Quantifier where
  | exactlyOne
  | zeroOrOne
  | zeroOrMore
  | oneOrMore
  /-- What none of the alternatives matches. -/
  | negated
  deriving DecidableEq, Repr

inductive Piece where
  /-- One separator of the text. -/
  | separator
  /-- Exactly these characters. -/
  | literal (text : List Char)
  /-- `?` -/
  | anyChar
  /-- One character that is, or with `negated` is not, in one of the classes. -/
  | bracket (members : List CharClass) (negated : Bool)
  /-- `*` -/
  | star
  /-- `**` -/
  | globstar
  | list (quantifier : Quantifier) (alternatives : List (List Piece))
  deriving Repr

namespace Piece

mutual

/-- The number of pieces of a sequence, those inside its lists included. -/
def count : List Piece → Nat
  | [] => 0
  | piece :: rest => piece.size + count rest

def size : Piece → Nat
  | list _ alternatives => 1 + totalCount alternatives
  | separator | literal _ | anyChar | bracket .. | star | globstar => 1

def totalCount : List (List Piece) → Nat
  | [] => 0
  | pieces :: rest => count pieces + totalCount rest

end

mutual

/-- The number of characters that every match of the sequence has, if its form fixes one. -/
def matchLength? : List Piece → Option Nat
  | [] => some 0
  | piece :: rest => do return (← piece.width?) + (← matchLength? rest)

def width? : Piece → Option Nat
  | separator | anyChar | bracket .. => some 1
  | literal text => some text.length
  | list .exactlyOne alternatives => commonLength? alternatives
  | star | globstar | list .. => none

/-- The length that all sequences have in common. -/
def commonLength? : List (List Piece) → Option Nat
  | [] => none
  | [pieces] => matchLength? pieces
  | pieces :: rest => do
    let length ← matchLength? pieces
    guard (commonLength? rest == some length)
    return length

end

mutual

/-- Whether a match of the sequence may contain a separator. -/
def maySpanComponents (options : Options) : List Piece → Bool
  | [] => false
  | piece :: rest => piece.maySpan options || maySpanComponents options rest

def maySpan (options : Options) : Piece → Bool
  | separator | globstar => true
  | literal text => text.any options.isSeparator
  | list _ alternatives => someMaySpan options alternatives
  | anyChar | bracket .. | star => false

def someMaySpan (options : Options) : List (List Piece) → Bool
  | [] => false
  | pieces :: rest => maySpanComponents options pieces || someMaySpan options rest

end

/-- The number of characters that a piece takes whatever the text is, if it is compared with the
text character by character. -/
def extent? : Piece → Option Nat
  | separator | anyChar | bracket .. => some 1
  | literal text => some text.length
  | star | globstar | list .. => none

theorem width?_of_extent? {piece : Piece} {extent : Nat} (takes : piece.extent? = some extent) :
    piece.width? = some extent := by
  cases piece with
  | separator | literal | anyChar | bracket => exact takes
  | star | globstar | list => cases takes

/-- The last piece with its extent, unless the end of the window is open. -/
def fixedLast? (pieces : List Piece) (openEnd : Bool) : Option (Piece × Nat) :=
  if openEnd then none
  else pieces.getLast?.bind fun last => last.extent?.map fun extent => (last, extent)

theorem size_pos (piece : Piece) : 0 < piece.size := by
  cases piece <;> simp only [size] <;> omega

theorem count_lt_cons (piece : Piece) (rest : List Piece) : count rest < count (piece :: rest) := by
  have positive := size_pos piece
  rw [count]
  omega

theorem count_append (left right : List Piece) :
    count (left ++ right) = count left + count right := by
  induction left with
  | nil => simp [count]
  | cons piece rest ih => simp [count, ih]; omega

theorem count_dropLast_lt {pieces : List Piece} (nonempty : pieces ≠ []) :
    count pieces.dropLast < count pieces := by
  have split := congrArg count (List.dropLast_concat_getLast nonempty)
  have positive := size_pos (pieces.getLast nonempty)
  simp only [count_append, count] at split
  omega

theorem count_dropLast_le (pieces : List Piece) : count pieces.dropLast ≤ count pieces := by
  cases pieces with
  | nil => simp
  | cons piece rest => exact Nat.le_of_lt (count_dropLast_lt (by simp))

theorem count_tail_le (pieces : List Piece) : count pieces.tail ≤ count pieces := by
  cases pieces <;> simp [count]

theorem count_dropLast_lt_of_fixedLast {pieces : List Piece} {openEnd : Bool}
    {found : Piece × Nat} (last : fixedLast? pieces openEnd = some found) :
    count pieces.dropLast < count pieces := by
  apply count_dropLast_lt
  intro same
  subst same
  simp [fixedLast?] at last

theorem count_le_totalCount {alternatives : List (List Piece)} {alternative : List Piece}
    (member : alternative ∈ alternatives) : count alternative ≤ totalCount alternatives := by
  induction alternatives with
  | nil => cases member
  | cons first rest ih =>
    simp only [totalCount]
    cases member with
    | head => omega
    | tail _ later =>
      have := ih later
      omega

end Piece

end Glob
