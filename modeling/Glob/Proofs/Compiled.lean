import Glob.Options.Dialect
import Glob.Proofs.Derivation
import Glob.Proofs.ReadForm

/-!
The pieces that a reader can produce under its options. Where patterns have no separators or
wildcards do not cross them, no `**` stands next to a separator.
-/

namespace Glob

namespace Piece

def allowedBy (options : Options) : Piece → Bool
  | separator => options.separator.isSome
  | globstar => options.wildcardsCross
  | literal _ | anyChar | bracket .. | star | list .. => true

def AllAllowed (options : Options) (pieces : List Piece) : Prop :=
  ∀ part ∈ sequences pieces, ∀ piece ∈ part, piece.allowedBy options = true

variable {options : Options} {pieces : List Piece}

theorem allowedBy_of_isReadUnder {piece : Piece} (read : piece.isReadUnder options = true) :
    piece.allowedBy options = true := by
  cases piece with
  | separator => exact read
  | globstar => exact read
  | literal | anyChar | bracket | star | list => rfl

theorem keepsApart_of_allowedBy {piece next : Piece}
    (limited : options.separator = none ∨ options.wildcardReach = .withinComponents)
    (first : piece.allowedBy options = true) (second : next.allowedBy options = true) :
    piece.keepsApart next = true := by
  have never : ¬(options.separator.isSome = true ∧ options.wildcardsCross = true) := by
    intro ⟨separates, crosses⟩
    rcases limited with none | within
    · rw [none] at separates
      cases separates
    · simp [Options.wildcardsCross, within] at crosses
  unfold keepsApart
  split
  · exact absurd ⟨second, first⟩ never
  · exact absurd ⟨first, second⟩ never
  · rfl

theorem apart_of_allAllowed
    (limited : options.separator = none ∨ options.wildcardReach = .withinComponents)
    (allowed : ∀ piece ∈ pieces, piece.allowedBy options = true) : Apart pieces := by
  induction pieces with
  | nil => exact .nil
  | cons piece rest ih =>
      have later := ih fun next present => allowed next (List.mem_cons_of_mem piece present)
      cases rest with
      | nil => exact .singleton piece
      | cons next rest =>
          apply List.isChain_cons_cons.mpr
          refine ⟨?_, later⟩
          have first := allowed piece List.mem_cons_self
          have second := allowed next (List.mem_cons_of_mem piece List.mem_cons_self)
          exact keepsApart_of_allowedBy limited first second

end Piece

namespace Pattern

variable {options : Options} {source : String} {pattern : Pattern}

theorem allAllowed_of_compile (compiled : compile options source = .ok pattern) :
    ∀ pieces ∈ pattern.alternatives, Piece.AllAllowed options pieces := by
  intro pieces present part deep piece member
  obtain ⟨text, found⟩ := exists_ofText_of_compile compiled present
  have compact := Piece.compact_of_ofText found
  exact Piece.allowedBy_of_isReadUnder (compact.read part deep piece member)

/-- The dialects whose patterns never have a `**` next to a separator. -/
theorem apart_of_compile
    (limited : options.separator = none ∨ options.wildcardReach = .withinComponents)
    (compiled : compile options source = .ok pattern) :
    ∀ pieces ∈ pattern.alternatives, ∀ part ∈ Piece.sequences pieces, Piece.Apart part := by
  intro pieces present part deep
  exact Piece.apart_of_allAllowed limited (allAllowed_of_compile compiled pieces present part deep)

end Pattern

namespace Subject

/-- The matcher is exact: it matches a text if and only if the text can be derived. -/
theorem exact_without_hidden_periods :
    (∀ (options : Options) (text : Array Char) (pieces : List Piece),
      options.explicitLeadingPeriods = false →
      (∀ part ∈ Piece.sequences pieces, Piece.Apart part) →
      ∀ stop ≤ text.size,
        ((Subject.mk text options).accepts pieces 0 stop options.leadingDirectories = true ↔
          ∃ last ≤ stop,
            (last = stop ∨ options.leadingDirectories = true ∧ SeparatorAt options text last) ∧
              Piece.Derives options text pieces 0 last)) ∧
    ∀ (options : Options),
      (options = .bash ∨ options = .go ∨ ∃ flags, flags.period = false ∧ options = .fnmatch flags) →
      ∀ (source : String) (pattern : Pattern), Pattern.compile options source = .ok pattern →
        options.explicitLeadingPeriods = false ∧
          ∀ pieces ∈ pattern.alternatives, ∀ part ∈ Piece.sequences pieces, Piece.Apart part := by
  constructor
  · intro options text pieces periods apart stop _
    exact accepts_iff_derives periods apart
  · intro options preset source pattern compiled
    rcases preset with bash | go | ⟨flags, visible, fnmatch⟩
    · subst bash
      exact ⟨rfl, Pattern.apart_of_compile (.inl rfl) compiled⟩
    · subst go
      exact ⟨rfl, Pattern.apart_of_compile (.inr rfl) compiled⟩
    · subst fnmatch
      exact ⟨visible, Pattern.apart_of_compile (.inr rfl) compiled⟩

theorem exact_for_negated_list :
    let options : Options := { explicitLeadingPeriods := false, leadingDirectories := true }
    let text := #['.', 'a', '/', 'b', '/', 'c']
    let pieces := [.globstar, .list .negated [[.literal ['a']], [.star, .literal ['b']]]]
    ((Subject.mk text options).accepts pieces 0 5 options.leadingDirectories = true ↔
        ∃ last ≤ 5, (last = 5 ∨ options.leadingDirectories = true ∧
          SeparatorAt options text last) ∧ Piece.Derives options text pieces 0 last) ∧
      Pattern.compile .bash "+(a|/*)" =
        .ok ⟨"+(a|/*)", [[.list .oneOrMore [[.literal ['a']], [.literal ['/'], .star]]]], .bash⟩ ∧
      ∀ part ∈ Piece.sequences [.list .oneOrMore [[.literal ['a']], [.literal ['/'], .star]]],
        Piece.Apart part :=
  have compiled : Pattern.compile .bash "+(a|/*)" =
      .ok ⟨"+(a|/*)", [[.list .oneOrMore [[.literal ['a']], [.literal ['/'], .star]]]], .bash⟩ := by
    cbv
  ⟨exact_without_hidden_periods.1 { explicitLeadingPeriods := false, leadingDirectories := true }
      #['.', 'a', '/', 'b', '/', 'c']
      [.globstar, .list .negated [[.literal ['a']], [.star, .literal ['b']]]] rfl (by decide) 5
      (by decide),
    compiled,
    (exact_without_hidden_periods.2 .bash (.inl rfl) _ _ compiled).2 _ List.mem_cons_self⟩

end Subject

end Glob
