import Glob.Proofs.Depth
import Glob.Proofs.TwoEnded

/-!
Matching from the front only. The rules are those of the matcher, but nothing is taken off the end
of a window. The two agree on every text where the ends of all sequences detach. The last theorems
are about windows where they do not, one for each of the conditions.
-/

namespace Glob

namespace Subject

/-- The matcher without the step that takes pieces off the end of the window. -/
def acceptsForward (subject : Subject) (pieces : List Piece) (start stop : Nat) (leading : Bool) :
    Bool :=
  match pieces with
  | [] => start == stop || leading && subject.isSeparatorAt start
  | [.separator, .globstar] => subject.acceptsTrailingGlobstar start stop
  | .separator :: .globstar :: rest =>
    startsWithSeparator rest && subject.acceptsForward rest start stop leading ||
      start < stop && subject.isSeparatorAt start &&
        subject.acceptsForward (.globstar :: rest) (start + 1) stop leading
  | .star :: rest =>
    subject.acceptsStar (fun i => subject.acceptsForward rest i stop leading) start stop
  | .globstar :: rest =>
    rest.isEmpty ||
      startsWithSeparator rest && subject.atSegmentStart start &&
        subject.acceptsForward rest.tail start stop leading ||
      (positions start stop).any fun i => subject.acceptsForward rest i stop leading
  | .list quantifier alternatives :: rest =>
    subject.acceptsList Subtype.val alternatives.attach
      (fun occurrence =>
        subject.acceptsForward occurrence.alternative.val occurrence.start occurrence.stop false)
      (fun i => subject.acceptsForward rest i stop leading) start stop quantifier
  | piece :: rest =>
    match piece.extent? with
    | some extent =>
      start + extent ≤ stop && subject.standsAt start piece &&
        subject.acceptsForward rest (start + extent) stop leading
    | none => false
termination_by Piece.count pieces
decreasing_by
  all_goals simp only [Piece.count, Piece.size]
  all_goals try omega
  · have := Piece.count_tail_le rest
    omega
  · have := Piece.count_le_totalCount occurrence.alternative.property
    omega
  · have := Piece.size_pos piece
    omega

def forwardWindow (subject : Subject) (pieces : List Piece) (start stop : Nat) : Bool :=
  subject.acceptsForward pieces start stop false

variable {subject : Subject} {pieces : List Piece} {start stop : Nat} {leading : Bool}

theorem acceptsForward_fixed {piece : Piece} {rest : List Piece} {extent : Nat}
    (takes : piece.extent? = some extent) (apart : ¬Piece.OpensGlobstar piece rest) :
    subject.acceptsForward (piece :: rest) start stop leading = true ↔
      start + extent ≤ stop ∧ subject.standsAt start piece = true ∧
        subject.acceptsForward rest (start + extent) stop leading = true := by
  rw [acceptsForward.eq_def]
  split
  case h_1 same => cases same
  case h_2 same =>
    cases same
    exact absurd ⟨rfl, [], rfl⟩ apart
  case h_3 more _ same =>
    cases same
    exact absurd ⟨rfl, more, rfl⟩ apart
  case h_4 same | h_5 same | h_6 same =>
    cases same
    cases takes
  case h_7 same =>
    cases same
    simp only [takes, Bool.and_eq_true, decide_eq_true_iff, and_assoc]

theorem acceptsForward_iff_sweeps (inside : start ≤ stop) :
    subject.acceptsForward pieces start stop leading = true ↔
      subject.Sweeps subject.forwardWindow pieces start stop leading := by
  induction pieces using Piece.sequence_induction generalizing start with
  | nil =>
      rw [acceptsForward, sweeps_nil]
      simp
  | trailing => rw [acceptsForward, sweeps_trailing]
  | inner next rest ih ihGlobstar =>
      rw [acceptsForward, sweeps_inner, ← ih inside]
      · simp only [Bool.or_eq_true, Bool.and_eq_true, decide_eq_true_eq, and_assoc]
        apply or_congr_right
        apply and_congr_right
        intro shorter
        rw [ihGlobstar shorter]
      · intro none
        cases none
  | fixed piece rest extent takes apart ih =>
      rw [acceptsForward_fixed takes apart, sweeps_fixed takes apart]
      apply and_congr_right
      intro fits
      rw [ih fits]
  | star rest ih =>
      rw [acceptsForward, acceptsStar_iff inside, sweeps_star]
      apply and_congr_right
      intro _
      apply exists_within_congr
      intro middle _ bound
      rw [ih bound]
  | globstar rest ih ihTail =>
      rw [acceptsForward, sweeps_globstar, ← ihTail inside]
      simp only [Bool.or_eq_true, List.isEmpty_iff, Bool.and_eq_true, List.any_eq_true,
        mem_positions, and_assoc, or_assoc]
      apply or_congr_right
      apply or_congr_right
      apply exists_within_congr
      intro middle _ bound
      rw [ih bound]
  | list quantifier alternatives rest ih =>
      have judged : subject.acceptsList Subtype.val alternatives.attach
          (judged subject.forwardWindow Subtype.val)
          (fun i => subject.acceptsForward rest i stop leading) start stop quantifier = true ↔ _ :=
        acceptsList_iff quantifier inside
      rw [List.attach_map_subtype_val] at judged
      rw [acceptsForward, sweeps_list]
      refine judged.trans ?_
      apply exists_within_congr
      intro middle _ bound
      rw [ih bound]

theorem accepts_eq_acceptsForward_of_placed {placement : Placement}
    (placed : subject.Placed placement stop)
    (detach : ∀ part ∈ Piece.sequences pieces,
      Piece.endsDetach subject.options placement true part = true)
    (inside : start ≤ stop) :
    subject.accepts pieces start stop false = subject.acceptsForward pieces start stop false := by
  induction pieces using Piece.depth_induction generalizing start stop with
  | step pieces ih =>
      have whole := detach pieces Piece.mem_sequences_self
      have alternatives : ∀ quantifier alternatives, .list quantifier alternatives ∈ pieces →
          ∀ alternative ∈ alternatives, ∀ i j, i ≤ j → j ≤ stop →
            subject.acceptsWindow alternative i j = subject.forwardWindow alternative i j := by
        intro quantifier alternatives present alternative member i j low below
        apply ih quantifier alternatives present alternative member (placed.mono below) _ low
        intro part deep
        exact detach part (Piece.mem_sequences_of_alternative present member deep)
      apply Bool.eq_iff_iff.mpr
      calc
        subject.accepts pieces start stop false = true ↔
            subject.Sweeps subject.acceptsWindow pieces start stop false :=
          accepts_iff_sweeps placed whole (fun _ => rfl) inside
        _ ↔ subject.Sweeps subject.forwardWindow pieces start stop false :=
          sweeps_congr alternatives
        _ ↔ subject.acceptsForward pieces start stop false = true :=
          (acceptsForward_iff_sweeps inside).symm

/-- Taking pieces off both ends agrees with matching from the front. -/
theorem accepts_eq_acceptsForward
    (detach : ∀ part ∈ Piece.sequences pieces,
      Piece.endsDetach subject.options (subject.placement stop) true part = true)
    (inside : start ≤ stop) :
    subject.accepts pieces start stop false = subject.acceptsForward pieces start stop false :=
  accepts_eq_acceptsForward_of_placed (placed_placement subject stop) detach inside

theorem accepts_eq_acceptsForward_inner_globstar :
    let subject := Subject.mk #['x', '/', 'y', '/', 'a', 'c'] {}
    let pieces := [.star, .separator, .globstar, .separator,
      .list .negated [[.literal ['b']], [.star, .separator]], .literal ['c']]
    (∀ part ∈ Piece.sequences pieces,
      Piece.endsDetach subject.options (subject.placement 6) true part = true) ∧
      subject.accepts pieces 0 6 false = subject.acceptsForward pieces 0 6 false :=
  have detach : ∀ part ∈ Piece.sequences [.star, .separator, .globstar, .separator,
      .list .negated [[.literal ['b']], [.star, .separator]], .literal ['c']],
      Piece.endsDetach {} ((Subject.mk #['x', '/', 'y', '/', 'a', 'c'] {}).placement 6) true part =
        true := by
    decide +kernel
  ⟨detach, accepts_eq_acceptsForward detach (by decide)⟩

/-- Once its tail is taken off, an inner `/**` counts as one at the end. -/
theorem inner_globstar_needs_component {last : Piece} {extent : Nat}
    (needs : subject.options.trailingGlobstarNeedsComponent = true)
    (takes : last.extent? = some extent) (apart : last ≠ .separator)
    (clear : subject.isSeparatorAt start = false) (visible : subject.isHiddenPeriod start = false)
    (separates : subject.isSeparatorAt (start + 1) = true)
    (stands : subject.standsAt (start + 2) last = true) :
    subject.accepts [.star, .separator, .globstar, last] start (start + 2 + extent) false = false ∧
      subject.acceptsForward [.star, .separator, .globstar, last] start (start + 2 + extent)
        false = true := by
  constructor
  · apply Bool.eq_false_iff.mpr
    intro accepted
    have cut : subject.accepts (.star :: [.separator, .globstar] ++ [last]) start
        (start + 2 + extent) false = true ↔ _ :=
      accepts_concat rfl takes (fun both => apart both.1)
    obtain ⟨_, _, shorter⟩ := cut.mp accepted
    rw [Nat.add_sub_cancel] at shorter
    obtain ⟨_, i, low, _, _, trails⟩ := (accepts_star rfl (by omega)).mp shorter
    rw [accepts_trailing] at trails
    simp only [acceptsTrailingGlobstar, needs, if_true, Bool.and_eq_true,
      decide_eq_true_eq] at trails
    obtain ⟨⟨_, there⟩, component⟩ := trails
    have first : i = start := by omega
    rw [first, clear] at there
    exact Bool.false_ne_true there
  · have tail : subject.Sweeps subject.forwardWindow [.globstar, last] (start + 2)
        (start + 2 + extent) false :=
      sweeps_globstar.mpr (.inr (.inr ⟨start + 2, Nat.le_refl _, Nat.le_add_right _ _,
        (sweeps_single takes).mpr ⟨rfl, stands⟩⟩))
    have rest : subject.Sweeps subject.forwardWindow [.separator, .globstar, last] (start + 1)
        (start + 2 + extent) false :=
      sweeps_inner.mpr (.inr ⟨by omega, separates, tail⟩)
    apply (acceptsForward_iff_sweeps (by omega)).mpr
    apply sweeps_star.mpr
    constructor
    · intro hidden
      rw [visible] at hidden
      exact Bool.false_ne_true hidden.2
    · refine ⟨start + 1, by omega, by omega, ?_, rest⟩
      intro i low high
      have first : i = start := by omega
      rw [first]
      exact clear

/-- Where it needs no component, an inner `/**` that counts as one at the end needs no separator. -/
theorem inner_globstar_skips_separator {last : Piece} {extent : Nat}
    (free : subject.options.trailingGlobstarNeedsComponent = false)
    (takes : last.extent? = some extent) (apart : last ≠ .separator)
    (stands : subject.standsAt start last = true)
    (clear : subject.Unbroken start (start + extent)) :
    subject.accepts [.star, .separator, .globstar, last] start (start + extent) false = true ∧
      subject.acceptsForward [.star, .separator, .globstar, last] start (start + extent) false =
        false := by
  constructor
  · have cut : subject.accepts (.star :: [.separator, .globstar] ++ [last]) start
        (start + extent) false = true ↔ _ :=
      accepts_concat rfl takes (fun both => apart both.1)
    have trails : subject.accepts [.separator, .globstar] start start false = true :=
      accepts_trailing.mpr ((acceptsTrailingGlobstar_free free).mpr (.inl rfl))
    apply cut.mpr
    rw [Nat.add_sub_cancel]
    exact ⟨Nat.le_refl _, stands, accepts_star_empty rfl trails⟩
  · apply Bool.eq_false_iff.mpr
    intro accepted
    have swept := (acceptsForward_iff_sweeps (Nat.le_add_right start extent)).mp accepted
    obtain ⟨_, i, low, _, _, rest⟩ := sweeps_star.mp swept
    rcases sweeps_inner.mp rest with ⟨separates, _⟩ | ⟨shorter, separates, _⟩
    · exact apart (eq_separator_of_startsWithSeparator separates)
    · rw [clear i low shorter] at separates
      exact Bool.false_ne_true separates

/-- Once its separator is taken off, a `**/` after a list does not match zero directories. -/
theorem final_globstar_misses_zero_directories {quantifier : Quantifier}
    {alternatives : List (List Piece)} (starts : subject.atSegmentStart start = true)
    (takes : subject.TakesList subject.forwardWindow alternatives quantifier start start) :
    subject.accepts [.list quantifier alternatives, .globstar, .separator] start start false =
        false ∧
      subject.acceptsForward [.list quantifier alternatives, .globstar, .separator] start start
        false = true := by
  constructor
  · apply Bool.eq_false_iff.mpr
    intro accepted
    have cut : subject.accepts (.list quantifier alternatives :: [.globstar] ++ [.separator]) start
        start false = true ↔ _ :=
      accepts_concat rfl (rfl : Piece.separator.extent? = some 1) (by simp [Piece.endsInGlobstar])
    obtain ⟨beyond, _⟩ := cut.mp accepted
    exact Nat.not_succ_le_self start beyond
  · have rest : subject.Sweeps subject.forwardWindow [.globstar, .separator] start start false :=
      sweeps_globstar_separator.mpr (.inl ⟨starts, rfl⟩)
    apply (acceptsForward_iff_sweeps (Nat.le_refl start)).mpr
    exact sweeps_list.mpr ⟨start, Nat.le_refl start, Nat.le_refl start, takes, rest⟩

/-- A `*` before a literal that begins with a hidden period does not see the period. -/
theorem star_misses_hidden_period {text : List Char}
    (hidden : subject.isHiddenPeriod start = true)
    (stands : subject.literalAt text start = true) (nonempty : 0 < text.length) :
    subject.accepts [.star, .literal text] start (start + text.length) false = true ∧
      subject.acceptsForward [.star, .literal text] start (start + text.length) false =
        false := by
  refine ⟨accepts_star_literal stands, ?_⟩
  apply Bool.eq_false_iff.mpr
  intro accepted
  have swept := (acceptsForward_iff_sweeps (by omega)).mp accepted
  exact (sweeps_star.mp swept).1 ⟨by omega, hidden⟩

end Subject

end Glob
