import Glob.Match.Subject
import Glob.Match.Chain

/-!
Matching a sequence of pieces against a window of a text. Pieces of fixed extent are taken off both
ends first; what is left begins with a wildcard or a list. Every step leaves a sequence with fewer
pieces, so the recursion is bounded by the pattern and not by the text.
-/

namespace Glob

namespace Subject

def startsWithSeparator : List Piece → Bool
  | .separator :: _ => true
  | _ => false

/-- Whether a final `**` and separator may match nothing: after another separator, or alone at the
start of a component. -/
def endsInZeroDirectories (subject : Subject) (pieces : List Piece) (start : Nat) : Bool :=
  match pieces.reverse with
  | [.separator, .globstar] => subject.atSegmentStart start
  | .separator :: .globstar :: .separator :: _ => true
  | _ => false

/-- What a separator and a final `**` match together. -/
def acceptsTrailingGlobstar (subject : Subject) (start stop : Nat) : Bool :=
  let separated := start < stop && subject.isSeparatorAt start
  if subject.options.trailingGlobstarNeedsComponent then separated && 2 ≤ stop - start
  else start == stop || separated

/-- What `*` matches, where `goal` says from which positions the rest of the pattern matches. -/
def acceptsStar (subject : Subject) (goal : Nat → Bool) (start stop : Nat) : Bool :=
  !(start < stop && subject.isHiddenPeriod start) &&
    (positions start (subject.componentEnd start stop)).any goal

/-- The occurrences of alternatives that could begin at `start`. -/
def possibleOccurrences {α : Type} (subject : Subject) (pieces : α → List Piece)
    (alternatives : List α) (stop start : Nat) : List (Occurrence α) :=
  alternatives.flatMap fun alternative =>
    (subject.candidateEnds (pieces alternative) start stop).map fun last =>
      ⟨alternative, start, last⟩

section

variable {α : Type} (subject : Subject) (pieces : α → List Piece) (alternatives : List α)
  (holds : Occurrence α → Bool) (goal : Nat → Bool) (start stop : Nat)

/-- What one occurrence of an alternative matches, where `holds` says which occurrences match, and
`goal` from which positions the rest of the pattern does. -/
def acceptsOnce : Bool :=
  (subject.possibleOccurrences pieces alternatives stop start).any fun occurrence =>
    holds occurrence && goal occurrence.stop

/-- What one or more occurrences match, none of them empty. -/
def acceptsRepeatedly : Bool :=
  let possible := subject.possibleOccurrences pieces alternatives stop
  Occurrence.reaches possible holds goal (possible start) (positions (start + 1) stop)

/-- What matches if within the component no alternative does. -/
def acceptsNegated : Bool :=
  (positions start (subject.componentEnd start stop)).reverse.any fun last =>
    !(alternatives.any fun alternative => holds ⟨alternative, start, last⟩) && goal last

def acceptsList : Quantifier → Bool
  | .exactlyOne => subject.acceptsOnce pieces alternatives holds goal start stop
  | .zeroOrOne => subject.acceptsOnce pieces alternatives holds goal start stop || goal start
  | .zeroOrMore => goal start || subject.acceptsRepeatedly pieces alternatives holds goal start stop
  | .oneOrMore => subject.acceptsRepeatedly pieces alternatives holds goal start stop
  | .negated => subject.acceptsNegated alternatives holds goal start stop

end

/-- Whether the pieces match the text from `start` to `stop`; with `leading` a match may also end at
a separator before `stop`. -/
def accepts (subject : Subject) (pieces : List Piece) (start stop : Nat) (leading : Bool) : Bool :=
  match pieces with
  | [] => start == stop || leading && subject.isSeparatorAt start
  | [.separator, .globstar] => subject.acceptsTrailingGlobstar start stop
  | .separator :: .globstar :: rest =>
    startsWithSeparator rest && subject.accepts rest start stop leading ||
      start < stop && subject.isSeparatorAt start &&
        subject.accepts (.globstar :: rest) (start + 1) stop leading
  | piece :: rest =>
    match piece.extent? with
    | some extent =>
      start + extent ≤ stop && subject.standsAt start piece &&
        subject.accepts rest (start + extent) stop leading
    | none =>
      match _found : Piece.fixedLast? rest leading with
      | some (last, extent) =>
        subject.endsInZeroDirectories (piece :: rest) start &&
            subject.accepts (piece :: rest.dropLast).dropLast start stop false ||
          start + extent ≤ stop && subject.standsAt (stop - extent) last &&
            subject.accepts (piece :: rest.dropLast) start (stop - extent) false
      | none =>
        match piece with
        | .star => subject.acceptsStar (fun i => subject.accepts rest i stop leading) start stop
        | .globstar =>
          rest.isEmpty ||
            startsWithSeparator rest && subject.atSegmentStart start &&
              subject.accepts rest.tail start stop leading ||
            (positions start stop).any fun i => subject.accepts rest i stop leading
        | .list quantifier alternatives =>
          subject.acceptsList Subtype.val alternatives.attach
            (fun occurrence =>
              subject.accepts occurrence.alternative.val occurrence.start occurrence.stop false)
            (fun i => subject.accepts rest i stop leading) start stop quantifier
        | _ => false
termination_by Piece.count pieces
decreasing_by
  all_goals simp only [Piece.count, Piece.size]
  · omega
  · omega
  · have := Piece.size_pos piece
    omega
  · have := Piece.count_dropLast_lt_of_fixedLast _found
    have := Piece.count_dropLast_le (piece :: rest.dropLast)
    simp only [Piece.count] at this
    omega
  · have := Piece.count_dropLast_lt_of_fixedLast _found
    omega
  · omega
  · have := Piece.count_tail_le rest
    omega
  · omega
  · have := Piece.count_le_totalCount occurrence.alternative.property
    omega
  · omega

end Subject

end Glob
