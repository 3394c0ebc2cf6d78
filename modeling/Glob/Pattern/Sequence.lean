import Glob.Pattern.Token

/-!
Reading a pattern into pieces. The reader goes through the tokens once and keeps the lists that are
open on a stack, so a pattern may be split anywhere between two tokens.
-/

namespace Glob

/-- A list that is not closed yet. Its parts are kept with the newest first. -/
structure OpenList where
  /-- The pattern from the character on that begins the list. -/
  sigil : List Char
  quantifier : Quantifier
  /-- The pieces before the list. -/
  before : List Piece
  /-- The alternatives that are complete. -/
  alternatives : List (List Piece)

structure Reader where
  /-- The lists around the current place, the innermost first. -/
  lists : List OpenList
  /-- The pieces of the current sequence, the newest first, with a literal for each character. -/
  current : List Piece

namespace Reader

/-- Puts a piece before a sequence. A literal before another one becomes part of it. -/
def prepend : Piece → List Piece → List Piece
  | .literal text, .literal later :: rest => .literal (text ++ later) :: rest
  | piece, rest => piece :: rest

/-- A complete sequence in order, whose pieces were kept with the newest first. -/
def assemble (newestFirst : List Piece) : List Piece :=
  newestFirst.foldl (fun later piece => prepend piece later) []

/-- Adds a `*`. Next to another wildcard it may turn that one into `**`, but is no piece of its
own. -/
def pushStar (reach : WildcardReach) : List Piece → List Piece
  | .star :: rest => (if reach = .doubleStarCrosses then .globstar else .star) :: rest
  | .globstar :: rest => .globstar :: rest
  | pieces => (if reach = .singleStarCrosses then .globstar else .star) :: pieces

/-- Goes on after one token, which begins where `text` does. -/
def take (options : Options) (reader : Reader) (token : Token) (text : List Char) :
    Except Failure Reader :=
  match token, reader.lists with
  | .literal c, _ => .ok { reader with current := .literal [c] :: reader.current }
  | .star, _ => .ok { reader with current := pushStar options.wildcardReach reader.current }
  | .anyChar, _ => .ok { reader with current := .anyChar :: reader.current }
  | .separator, _ => .ok { reader with current := .separator :: reader.current }
  | .bracket members negated, _ =>
    .ok { reader with current := .bracket members negated :: reader.current }
  | .nothing, _ => .ok reader
  | .opening quantifier, lists =>
    .ok { lists := ⟨text, quantifier, reader.current, []⟩ :: lists, current := [] }
  | .divider, list :: lists =>
    let alternatives := assemble reader.current :: list.alternatives
    .ok { lists := { list with alternatives } :: lists, current := [] }
  | .closing, list :: lists =>
    match (assemble reader.current :: list.alternatives).reverse with
    | [[]] => .error ⟨.listEmpty, list.sigil⟩
    | alternatives =>
      .ok { lists, current := .list list.quantifier alternatives :: list.before }
  -- Outside of lists these characters are literal, so no such token comes up there.
  | .divider, [] | .closing, [] => .ok reader

/-- The pieces that have been read, in order, if no list is open. -/
def finish (reader : Reader) : Except Failure (List Piece) :=
  match reader.lists with
  | [] => .ok (assemble reader.current)
  | list :: _ => .error ⟨.listNotClosed, list.sigil⟩

def run (options : Options) (reader : Reader) (text : List Char) : Except Failure (List Piece) :=
  match text with
  | [] => reader.finish
  | c :: rest =>
    match _found : Token.read options (!reader.lists.isEmpty) c rest with
    | .error failure => .error failure
    | .ok (token, after) =>
      match reader.take options token (c :: rest) with
      | .error failure => .error failure
      | .ok next => next.run options after
termination_by text.length
decreasing_by
  have := Token.length_of_read _found
  simp only [List.length_cons]
  omega

end Reader

/-- The pieces of a pattern without brace groups. -/
def Piece.ofText (options : Options) (text : List Char) : Except Failure (List Piece) :=
  Reader.run options ⟨[], []⟩ text

end Glob
