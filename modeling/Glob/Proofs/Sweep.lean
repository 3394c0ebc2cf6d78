import Glob.Proofs.Quantifier

/-!
Matching from left to right. A sweep takes nothing off the end of its window and leaves the
alternatives of lists to a judge, so it describes one sequence by itself. With an open end the
matcher is a sweep.
-/

namespace Glob

namespace Piece

/-- A separator directly before `**`, which are matched together. -/
def OpensGlobstar (piece : Piece) (rest : List Piece) : Prop :=
  piece = .separator ∧ ∃ more, rest = .globstar :: more

/-- The ways in which a sequence can begin, as the matcher tells them apart. -/
@[elab_as_elim]
theorem sequence_cases {motive : List Piece → Prop} (nil : motive [])
    (trailing : motive [.separator, .globstar])
    (inner : ∀ next rest, motive (.separator :: .globstar :: next :: rest))
    (fixed : ∀ piece rest extent, piece.extent? = some extent → ¬OpensGlobstar piece rest →
      motive (piece :: rest))
    (star : ∀ rest, motive (.star :: rest))
    (globstar : ∀ rest, motive (.globstar :: rest))
    (list : ∀ quantifier alternatives rest, motive (.list quantifier alternatives :: rest)) :
    ∀ pieces, motive pieces
  | [] => nil
  | [.separator, .globstar] => trailing
  | .separator :: .globstar :: next :: rest => inner next rest
  | .star :: rest => star rest
  | .globstar :: rest => globstar rest
  | .list quantifier alternatives :: rest => list quantifier alternatives rest
  | .literal text :: rest => fixed (.literal text) rest _ rfl (by simp [OpensGlobstar])
  | .anyChar :: rest => fixed .anyChar rest _ rfl (by simp [OpensGlobstar])
  | .bracket members negated :: rest =>
    fixed (.bracket members negated) rest _ rfl (by simp [OpensGlobstar])
  | [.separator] => fixed .separator [] _ rfl (by simp [OpensGlobstar])
  | .separator :: .separator :: rest =>
    fixed .separator (.separator :: rest) _ rfl (by simp [OpensGlobstar])
  | .separator :: .literal text :: rest =>
    fixed .separator (.literal text :: rest) _ rfl (by simp [OpensGlobstar])
  | .separator :: .anyChar :: rest =>
    fixed .separator (.anyChar :: rest) _ rfl (by simp [OpensGlobstar])
  | .separator :: .bracket members negated :: rest =>
    fixed .separator (.bracket members negated :: rest) _ rfl (by simp [OpensGlobstar])
  | .separator :: .star :: rest =>
    fixed .separator (.star :: rest) _ rfl (by simp [OpensGlobstar])
  | .separator :: .list quantifier alternatives :: rest =>
    fixed .separator (.list quantifier alternatives :: rest) _ rfl (by simp [OpensGlobstar])

@[elab_as_elim]
theorem sequence_induction {motive : List Piece → Prop} (nil : motive [])
    (trailing : motive [.separator, .globstar])
    (inner : ∀ next rest, motive (next :: rest) → motive (.globstar :: next :: rest) →
      motive (.separator :: .globstar :: next :: rest))
    (fixed : ∀ piece rest extent, piece.extent? = some extent → ¬OpensGlobstar piece rest →
      motive rest → motive (piece :: rest))
    (star : ∀ rest, motive rest → motive (.star :: rest))
    (globstar : ∀ rest, motive rest → motive rest.tail → motive (.globstar :: rest))
    (list : ∀ quantifier alternatives rest, motive rest →
      motive (.list quantifier alternatives :: rest)) (pieces : List Piece) : motive pieces := by
  induction h : pieces.length using Nat.strongRecOn generalizing pieces with
  | _ length ih =>
      have shorter : ∀ part : List Piece, part.length < pieces.length → motive part :=
        fun part less => ih part.length (h ▸ less) part rfl
      cases pieces using sequence_cases with
      | nil => exact nil
      | trailing => exact trailing
      | inner next rest => exact inner next rest (shorter _ (by simp)) (shorter _ (by simp))
      | fixed piece rest extent takes apart =>
          exact fixed piece rest extent takes apart (shorter rest (by simp))
      | star rest => exact star rest (shorter rest (by simp))
      | globstar rest =>
          refine globstar rest (shorter rest (by simp)) (shorter rest.tail ?_)
          simp only [List.length_tail, List.length_cons]
          omega
      | list quantifier alternatives rest =>
          exact list quantifier alternatives rest (shorter rest (by simp))

end Piece

namespace Subject

/-- Whether a sweep over the pieces takes the text from `start` to `stop`, where `holds` says what
the alternatives of lists match. With `leading` it may also end at a separator before `stop`. -/
def Sweeps (subject : Subject) (holds : List Piece → Nat → Nat → Bool) (pieces : List Piece)
    (start stop : Nat) (leading : Bool) : Prop :=
  match pieces with
  | [] => start = stop ∨ leading = true ∧ subject.isSeparatorAt start = true
  | [.separator, .globstar] => subject.acceptsTrailingGlobstar start stop = true
  | .separator :: .globstar :: rest =>
    startsWithSeparator rest = true ∧ subject.Sweeps holds rest start stop leading ∨
      start < stop ∧ subject.isSeparatorAt start = true ∧
        subject.Sweeps holds (.globstar :: rest) (start + 1) stop leading
  | .star :: rest =>
    ¬(start < stop ∧ subject.isHiddenPeriod start = true) ∧
      ∃ last, start ≤ last ∧ last ≤ stop ∧ subject.Unbroken start last ∧
        subject.Sweeps holds rest last stop leading
  | .globstar :: rest =>
    rest = [] ∨
      startsWithSeparator rest = true ∧ subject.atSegmentStart start = true ∧
          subject.Sweeps holds rest.tail start stop leading ∨
        ∃ last, start ≤ last ∧ last ≤ stop ∧ subject.Sweeps holds rest last stop leading
  | .list quantifier alternatives :: rest =>
    ∃ last, start ≤ last ∧ last ≤ stop ∧
      subject.TakesList holds alternatives quantifier start last ∧
        subject.Sweeps holds rest last stop leading
  | piece :: rest =>
    ∃ extent, piece.extent? = some extent ∧ start + extent ≤ stop ∧
      subject.standsAt start piece = true ∧
        subject.Sweeps holds rest (start + extent) stop leading
termination_by pieces.length
decreasing_by
  all_goals simp only [List.length_cons, List.length_tail]
  all_goals omega

section

variable {subject : Subject} {holds : List Piece → Nat → Nat → Bool} {rest : List Piece}
  {start stop : Nat} {leading : Bool}

theorem sweeps_nil : subject.Sweeps holds [] start stop leading ↔
    start = stop ∨ leading = true ∧ subject.isSeparatorAt start = true := by
  rw [Sweeps]

theorem sweeps_trailing : subject.Sweeps holds [.separator, .globstar] start stop leading ↔
    subject.acceptsTrailingGlobstar start stop = true := by
  rw [Sweeps]

theorem sweeps_inner {next : Piece} :
    subject.Sweeps holds (.separator :: .globstar :: next :: rest) start stop leading ↔
      startsWithSeparator (next :: rest) = true ∧
          subject.Sweeps holds (next :: rest) start stop leading ∨
        start < stop ∧ subject.isSeparatorAt start = true ∧
          subject.Sweeps holds (.globstar :: next :: rest) (start + 1) stop leading := by
  rw [Sweeps]
  exact fun h => by cases h

theorem sweeps_star : subject.Sweeps holds (.star :: rest) start stop leading ↔
    ¬(start < stop ∧ subject.isHiddenPeriod start = true) ∧
      ∃ last, start ≤ last ∧ last ≤ stop ∧ subject.Unbroken start last ∧
        subject.Sweeps holds rest last stop leading := by
  rw [Sweeps]

theorem sweeps_globstar : subject.Sweeps holds (.globstar :: rest) start stop leading ↔
    rest = [] ∨
      startsWithSeparator rest = true ∧ subject.atSegmentStart start = true ∧
          subject.Sweeps holds rest.tail start stop leading ∨
        ∃ last, start ≤ last ∧ last ≤ stop ∧ subject.Sweeps holds rest last stop leading := by
  rw [Sweeps]

theorem sweeps_list {quantifier : Quantifier} {alternatives : List (List Piece)} :
    subject.Sweeps holds (.list quantifier alternatives :: rest) start stop leading ↔
      ∃ last, start ≤ last ∧ last ≤ stop ∧
        subject.TakesList holds alternatives quantifier start last ∧
          subject.Sweeps holds rest last stop leading := by
  rw [Sweeps]

theorem sweeps_fixed {piece : Piece} {extent : Nat} (takes : piece.extent? = some extent)
    (apart : ¬Piece.OpensGlobstar piece rest) :
    subject.Sweeps holds (piece :: rest) start stop leading ↔
      start + extent ≤ stop ∧ subject.standsAt start piece = true ∧
        subject.Sweeps holds rest (start + extent) stop leading := by
  rw [Sweeps.eq_def]
  split
  case h_1 same => cases same
  case h_2 same =>
    cases same
    exact absurd ⟨rfl, [], rfl⟩ apart
  case h_3 more _ same =>
    cases same
    exact absurd ⟨rfl, more, rfl⟩ apart
  case h_4 same | h_5 same | h_6 same =>
    cases same
    cases takes
  case h_7 same =>
    cases same
    simp only [takes, Option.some.injEq, exists_eq_left']

theorem sweeps_congr {other : List Piece → Nat → Nat → Bool} {pieces : List Piece}
    (same : ∀ quantifier alternatives, .list quantifier alternatives ∈ pieces →
      ∀ alternative ∈ alternatives, ∀ i j, i ≤ j → j ≤ stop →
        holds alternative i j = other alternative i j) :
    subject.Sweeps holds pieces start stop leading ↔
      subject.Sweeps other pieces start stop leading := by
  induction pieces using Piece.sequence_induction generalizing start with
  | nil => rw [sweeps_nil, sweeps_nil]
  | trailing => rw [sweeps_trailing, sweeps_trailing]
  | inner next rest ih ihGlobstar =>
      rw [sweeps_inner, sweeps_inner, ih, ihGlobstar]
      · intro quantifier alternatives present
        exact same quantifier alternatives (List.mem_cons_of_mem _ present)
      · intro quantifier alternatives present
        exact same quantifier alternatives
          (List.mem_cons_of_mem _ (List.mem_cons_of_mem _ present))
  | fixed piece rest extent takes apart ih =>
      rw [sweeps_fixed takes apart, sweeps_fixed takes apart, ih]
      intro quantifier alternatives present
      exact same quantifier alternatives (List.mem_cons_of_mem _ present)
  | star rest ih =>
      have later : ∀ i, subject.Sweeps holds rest i stop leading ↔
          subject.Sweeps other rest i stop leading := fun i =>
        ih fun quantifier alternatives present =>
          same quantifier alternatives (List.mem_cons_of_mem _ present)
      simp only [sweeps_star, later]
  | globstar rest ih ihTail =>
      have later : ∀ i, subject.Sweeps holds rest i stop leading ↔
          subject.Sweeps other rest i stop leading := fun i =>
        ih fun quantifier alternatives present =>
          same quantifier alternatives (List.mem_cons_of_mem _ present)
      have latest : subject.Sweeps holds rest.tail start stop leading ↔
          subject.Sweeps other rest.tail start stop leading :=
        ihTail fun quantifier alternatives present =>
          same quantifier alternatives (List.mem_cons_of_mem _ (List.mem_of_mem_tail present))
      simp only [sweeps_globstar, later, latest]
  | list quantifier alternatives rest ih =>
      have later : ∀ i, subject.Sweeps holds rest i stop leading ↔
          subject.Sweeps other rest i stop leading := fun i =>
        ih fun quantifier alternatives present =>
          same quantifier alternatives (List.mem_cons_of_mem _ present)
      simp only [sweeps_list, later]
      apply exists_within_congr
      intro last low bound
      apply and_congr_left
      intro _
      apply takesList_congr (AgreesBelow.refl subject last).seenAlike low
      intro alternative member i j _ first final
      exact same quantifier alternatives List.mem_cons_self alternative member i j first
        (Nat.le_trans final bound)

end

end Subject

end Glob
