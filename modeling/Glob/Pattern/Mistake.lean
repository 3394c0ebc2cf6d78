/-! What can be wrong with a pattern, and where. -/

namespace Glob

inductive Mistake where
  | bracketNotClosed
  | bracketEmpty
  /-- A `-` without a lower bound, where it may not stand for itself. -/
  | rangeWithoutLowerBound
  | rangeOutOfOrder
  /-- A backslash at the end of the pattern. -/
  | danglingEscape
  | unknownClass (name : String)
  | listNotClosed
  | listEmpty
  /-- A collating symbol or equivalence class that does not name one character. -/
  | longElement (name : String)
  deriving DecidableEq, Repr

namespace Mistake

def message : Mistake → String
  | bracketNotClosed => "bracket expression is not closed"
  | bracketEmpty => "bracket expression is empty"
  | rangeWithoutLowerBound => "range is missing a lower bound"
  | rangeOutOfOrder => "range bounds are out of order"
  | danglingEscape => "the pattern ends with an unterminated escape"
  | unknownClass name => "'" ++ name ++ "' is not a known character class"
  | listNotClosed => "pattern list is not closed"
  | listEmpty => "pattern list is empty"
  | longElement name => "multi-character collating element '" ++ name ++ "' is not supported"

end Mistake

/-- A mistake, with the rest of the pattern from its cause on. -/
structure Failure where
  mistake : Mistake
  rest : List Char
  deriving DecidableEq, Repr

structure PatternError where
  /-- The text in which the mistake is, after brace groups were expanded. -/
  pattern : String
  /-- The number of bytes before the cause of the mistake, in UTF-8. -/
  location : Nat
  mistake : Mistake
  deriving DecidableEq, Repr

namespace PatternError

def message (error : PatternError) : String :=
  "invalid glob pattern '" ++ error.pattern ++ "' at offset " ++ toString error.location ++ ": " ++
    error.mistake.message

end PatternError

def byteSize (text : List Char) : Nat :=
  text.foldl (fun size c => size + c.utf8Size) 0

/-- The error for a mistake in `text`, whose cause is as far from the start as its rest leaves. -/
def Failure.within (failure : Failure) (text : List Char) : PatternError where
  pattern := String.ofList text
  location := byteSize text - byteSize failure.rest
  mistake := failure.mistake

end Glob
