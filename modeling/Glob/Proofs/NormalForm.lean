import Mathlib.Data.List.Chain
import Glob.Pattern.Sequence
import Glob.Proofs.Depth

/-!
The normal form of sequences: what belongs together is one piece, and nothing is empty. A reader
keeps a literal for each character; put together, they are the sequence in normal form again.
-/

namespace Glob

namespace CharClass

def inOrder : CharClass → Bool
  | range lower upper => lower ≤ upper
  | named _ => true

end CharClass

namespace Piece

def isWildcard : Piece → Bool
  | star | globstar => true
  | separator | literal _ | anyChar | bracket .. | list .. => false

def isLiteral : Piece → Bool
  | literal _ => true
  | separator | anyChar | bracket .. | star | globstar | list .. => false

/-- Whether two neighbours would not be read as one piece. -/
def staysApart (piece next : Piece) : Bool :=
  !(piece.isLiteral && next.isLiteral) && !(piece.isWildcard && next.isWildcard)

/-- Whether a piece has something in it, and its ranges have their bounds in order. -/
def isProper : Piece → Bool
  | literal text => !text.isEmpty
  | bracket members _ => !members.isEmpty && members.all CharClass.inOrder
  | list _ [] | list _ [[]] => false
  | separator | anyChar | star | globstar | list .. => true

structure Normal (pieces : List Piece) : Prop where
  proper : Everywhere (·.isProper = true) pieces
  apart : ∀ part ∈ sequences pieces, part.IsChain fun piece next => piece.staysApart next = true

instance (pieces : List Piece) : Decidable (Normal pieces) :=
  decidable_of_iff (_ ∧ _)
    ⟨fun both => ⟨both.1, both.2⟩, fun normal => ⟨normal.proper, normal.apart⟩⟩

namespace Normal

variable {pieces rest alternative : List Piece} {piece : Piece} {quantifier : Quantifier}
  {alternatives : List (List Piece)}

theorem of_alternative (normal : Normal pieces) (present : .list quantifier alternatives ∈ pieces)
    (member : alternative ∈ alternatives) : Normal alternative :=
  ⟨normal.proper.of_alternative present member,
    fun part deep => normal.apart part (mem_sequences_of_alternative present member deep)⟩

theorem chain (normal : Normal pieces) :
    pieces.IsChain fun piece next => piece.staysApart next = true :=
  normal.apart pieces mem_sequences_self

theorem tail (normal : Normal (piece :: rest)) : Normal rest := by
  refine ⟨normal.proper.tail, ?_⟩
  intro part deep
  rcases mem_sequences_iff.mp deep with same | ⟨_, _, present, _, member, deeper⟩
  · rw [same]
    exact normal.chain.tail
  · have inside := List.mem_cons_of_mem piece present
    exact normal.apart part (mem_sequences_of_alternative inside member deeper)

end Normal

/-- A literal for each character of a literal, and any other piece by itself. -/
def letters : Piece → List Piece
  | literal text => text.map fun c => literal [c]
  | piece => [piece]

end Piece

namespace Reader

variable {pieces rest : List Piece} {piece : Piece} {text : List Char}

theorem prepend_of_staysApart (apart : ∀ next ∈ rest.head?, piece.staysApart next = true) :
    prepend piece rest = piece :: rest := by
  unfold prepend
  split
  · have joins := apart _ rfl
    cases joins
  · rfl

theorem foldr_prepend_letters (nonempty : text ≠ [])
    (apart : ∀ next ∈ rest.head?, next.isLiteral = false) :
    (Piece.literal text).letters.foldr prepend rest = .literal text :: rest := by
  induction text with
  | nil => exact absurd rfl nonempty
  | cons c later ih =>
      cases later with
      | nil =>
          apply prepend_of_staysApart
          intro next first
          rw [Piece.staysApart, apart next first, Bool.and_false]
          rfl
      | cons d later => exact congrArg (prepend (.literal [c])) (ih (by simp))

theorem assemble_letters (normal : Piece.Normal pieces) :
    assemble (pieces.flatMap Piece.letters).reverse = pieces := by
  rw [assemble, List.foldl_reverse]
  induction pieces with
  | nil => rfl
  | cons piece rest ih =>
      have proper := normal.proper.mem List.mem_cons_self
      have apart : ∀ next ∈ rest.head?, piece.staysApart next = true :=
        (List.isChain_cons.mp normal.chain).1
      rw [List.flatMap_cons, List.foldr_append, ih normal.tail]
      cases piece with
      | literal text =>
          apply foldr_prepend_letters
          · intro empty
            subst empty
            cases proper
          · intro next first
            have kept := apart next first
            simpa [Piece.staysApart, Piece.isLiteral, Piece.isWildcard] using kept
      | separator | anyChar | bracket | star | globstar | list => exact prepend_of_staysApart apart

end Reader

end Glob
