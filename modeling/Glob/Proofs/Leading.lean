import Glob.Proofs.Locality
import Glob.Proofs.Reading

/-!
Leading directories. A match with an open end is one of a text that is cut off at a separator, with
one exception: where `.` is a separator, a text may be cut off right before a hidden period.
-/

namespace Glob

namespace Piece

/-- Whether no `*` can stand right before a hidden period that separates. -/
def seesSeparators (options : Options) (placement : Placement) (atStart : Bool)
    (pieces : List Piece) : Bool :=
  !placement.atHiddenPeriod .separator || starsKeepOff options atStart pieces

variable {options : Options} {placement : Placement} {piece : Piece} {rest : List Piece}
  {atStart : Bool}

theorem seesSeparators_congr {other : Options} {pieces : List Piece}
    (alike : options.MatchAlike other) :
    seesSeparators options placement atStart pieces =
      seesSeparators other placement atStart pieces := by
  rw [seesSeparators, seesSeparators, starsKeepOff_congr alike]

theorem seesSeparators_tail
    (sees : seesSeparators options placement atStart (piece :: rest) = true) :
    seesSeparators options placement (piece.leavesStart options atStart) rest = true := by
  rw [seesSeparators, Bool.or_eq_true] at sees ⊢
  exact sees.imp_right starsKeepOff_tail

theorem seesSeparators_star (sees : seesSeparators options placement true (.star :: rest) = true)
    (separates : placement.atHiddenPeriod .separator = true) : mayBeEmpty options rest = false := by
  simp only [seesSeparators, separates, Bool.not_true, Bool.false_or] at sees
  exact mayBeEmpty_of_starsKeepOff sees

end Piece

namespace Subject

variable {subject : Subject} {holds : List Piece → Nat → Nat → Bool} {pieces : List Piece}
  {start stop : Nat} {atStart : Bool}

def MayEnd (subject : Subject) (stop last : Nat) : Prop :=
  last = stop ∨ subject.isSeparatorAt last = true

theorem exists_within_comm {takes ends : Nat → Prop} {after : Nat → Nat → Prop} :
    (∃ i, start ≤ i ∧ i ≤ stop ∧ takes i ∧
        ∃ last, i ≤ last ∧ last ≤ stop ∧ ends last ∧ after i last) ↔
      ∃ last, start ≤ last ∧ last ≤ stop ∧ ends last ∧
        ∃ i, start ≤ i ∧ i ≤ last ∧ takes i ∧ after i last := by
  constructor
  · intro first
    obtain ⟨i, low, _, taken, last, within, bound, ended, held⟩ := first
    exact ⟨last, Nat.le_trans low within, bound, ended, i, low, within, taken, held⟩
  · intro last
    obtain ⟨last, _, bound, ended, i, low, within, taken, held⟩ := last
    exact ⟨i, low, Nat.le_trans within bound, taken, last, within, bound, ended, held⟩

theorem acceptsTrailingGlobstar_leading (inside : start ≤ stop) :
    subject.acceptsTrailingGlobstar start stop = true ↔
      ∃ last, start ≤ last ∧ last ≤ stop ∧ subject.MayEnd stop last ∧
        subject.acceptsTrailingGlobstar start last = true := by
  constructor
  · intro trails
    exact ⟨stop, inside, Nat.le_refl stop, .inl rfl, trails⟩
  · intro earlier
    obtain ⟨last, low, bound, ends, trails⟩ := earlier
    cases needs : subject.options.trailingGlobstarNeedsComponent with
    | true =>
        rw [acceptsTrailingGlobstar_needs needs] at trails ⊢
        exact ⟨Nat.le_trans trails.1 bound, trails.2⟩
    | false =>
        rw [acceptsTrailingGlobstar_free needs] at trails ⊢
        rcases trails with same | ⟨shorter, separates⟩
        · rcases ends with whole | separates
          · exact .inl (same.trans whole)
          · by_cases empty : start = stop
            · exact .inl empty
            · rw [← same] at separates
              exact .inr ⟨by omega, separates⟩
        · exact .inr ⟨by omega, separates⟩

/-- The sweeps with an open end are those that end before a separator or at the end of the
window. -/
def OpenEnded (subject : Subject) (holds : List Piece → Nat → Nat → Bool) (pieces : List Piece)
    (start stop : Nat) : Prop :=
  subject.Sweeps holds pieces start stop true ↔
    ∃ last, start ≤ last ∧ last ≤ stop ∧ subject.MayEnd stop last ∧
      subject.Sweeps holds pieces start last false

variable {rest : List Piece}

theorem exists_openEnded (takes : Nat → Prop)
    (later : ∀ i, start ≤ i → i ≤ stop → takes i → subject.OpenEnded holds rest i stop) :
    (∃ i, start ≤ i ∧ i ≤ stop ∧ takes i ∧ subject.Sweeps holds rest i stop true) ↔
      ∃ last, start ≤ last ∧ last ≤ stop ∧ subject.MayEnd stop last ∧
        ∃ i, start ≤ i ∧ i ≤ last ∧ takes i ∧ subject.Sweeps holds rest i last false := by
  rw [← exists_within_comm]
  apply exists_within_congr
  intro i low bound
  apply and_congr_right
  intro taken
  exact later i low bound taken

theorem openEnded_nil (inside : start ≤ stop) : subject.OpenEnded holds [] start stop := by
  simp only [OpenEnded, sweeps_nil, true_and, Bool.false_eq_true, false_and, or_false]
  constructor
  · intro ends
    exact ⟨start, Nat.le_refl start, inside, ends, rfl⟩
  · intro earlier
    obtain ⟨last, _, _, ends, same⟩ := earlier
    rw [same]
    exact ends

theorem openEnded_inner {next : Piece} (after : subject.OpenEnded holds (next :: rest) start stop)
    (below : start < stop → subject.OpenEnded holds (.globstar :: next :: rest) (start + 1) stop) :
    subject.OpenEnded holds (.separator :: .globstar :: next :: rest) start stop := by
  constructor
  · intro swept
    rcases sweeps_inner.mp swept with ⟨separates, swept⟩ | ⟨shorter, separates, swept⟩
    · obtain ⟨last, low, bound, ends, swept⟩ := after.mp swept
      exact ⟨last, low, bound, ends, sweeps_inner.mpr (.inl ⟨separates, swept⟩)⟩
    · obtain ⟨last, low, bound, ends, swept⟩ := (below shorter).mp swept
      exact ⟨last, by omega, bound, ends, sweeps_inner.mpr (.inr ⟨low, separates, swept⟩)⟩
  · intro earlier
    obtain ⟨last, low, bound, ends, swept⟩ := earlier
    apply sweeps_inner.mpr
    rcases sweeps_inner.mp swept with ⟨separates, swept⟩ | ⟨shorter, separates, swept⟩
    · exact .inl ⟨separates, after.mpr ⟨last, low, bound, ends, swept⟩⟩
    · have inside : start < stop := by omega
      exact .inr ⟨inside, separates, (below inside).mpr ⟨last, shorter, bound, ends, swept⟩⟩

theorem openEnded_fixed {piece : Piece} {extent : Nat} (takes : piece.extent? = some extent)
    (apart : ¬Piece.OpensGlobstar piece rest)
    (after : start + extent ≤ stop → subject.standsAt start piece = true →
      subject.OpenEnded holds rest (start + extent) stop) :
    subject.OpenEnded holds (piece :: rest) start stop := by
  constructor
  · intro swept
    obtain ⟨fits, stands, swept⟩ := (sweeps_fixed takes apart).mp swept
    obtain ⟨last, low, bound, ends, swept⟩ := (after fits stands).mp swept
    exact ⟨last, by omega, bound, ends, (sweeps_fixed takes apart).mpr ⟨low, stands, swept⟩⟩
  · intro earlier
    obtain ⟨last, _, bound, ends, swept⟩ := earlier
    obtain ⟨fits, stands, swept⟩ := (sweeps_fixed takes apart).mp swept
    have inside : start + extent ≤ stop := Nat.le_trans fits bound
    have open_ := (after inside stands).mpr ⟨last, fits, bound, ends, swept⟩
    exact (sweeps_fixed takes apart).mpr ⟨inside, stands, open_⟩

/-- Before a hidden period that separates, a `*` at the end of a match would take nothing. -/
theorem openEnded_star {placement : Placement} (placed : subject.Placed placement stop)
    (sees : subject.atSegmentStart start = true →
      Piece.seesSeparators subject.options placement true (.star :: rest) = true)
    (after : ∀ i, start ≤ i → i ≤ stop → subject.Unbroken start i →
      subject.OpenEnded holds rest i stop) :
    subject.OpenEnded holds (.star :: rest) start stop := by
  rw [OpenEnded, sweeps_star, exists_openEnded (subject.Unbroken start) after]
  constructor
  · intro both
    obtain ⟨visible, last, low, bound, ends, taken⟩ := both
    refine ⟨last, low, bound, ends, sweeps_star.mpr ⟨?_, taken⟩⟩
    intro hidden
    exact visible ⟨by omega, hidden.2⟩
  · intro earlier
    obtain ⟨last, low, bound, ends, swept⟩ := earlier
    obtain ⟨visible, taken⟩ := sweeps_star.mp swept
    refine ⟨?_, last, low, bound, ends, taken⟩
    intro both
    have hidden := both.2
    -- The window of the `*` is empty here, so the separator after it is the hidden period.
    obtain rfl : last = start := by
      by_contra other
      exact visible ⟨by omega, hidden⟩
    have ⟨_, _, starts⟩ := isHiddenPeriod_iff.mp hidden
    rcases ends with whole | separates
    · omega
    · have separator : placement.atHiddenPeriod .separator = true :=
        placed.period last both.1 .separator 1 rfl Nat.one_pos both.1 hidden separates
      obtain ⟨i, first, final, _, empty⟩ := taken
      obtain rfl : i = last := by omega
      have full := Piece.seesSeparators_star (sees starts) separator
      rw [mayBeEmpty_of_sweeps empty] at full
      exact Bool.false_ne_true full.symm

theorem openEnded_globstar (inside : start ≤ stop)
    (after : ∀ i, i ≤ stop → subject.OpenEnded holds rest i stop)
    (tail : startsWithSeparator rest = true → subject.OpenEnded holds rest.tail start stop) :
    subject.OpenEnded holds (.globstar :: rest) start stop := by
  have following := exists_openEnded (fun _ => True) fun i (_ : start ≤ i) bound _ => after i bound
  simp only [true_and] at following
  rw [OpenEnded, sweeps_globstar, following]
  constructor
  · intro swept
    rcases swept with none | ⟨separates, starts, swept⟩ | ⟨last, low, bound, ends, taken⟩
    · exact ⟨stop, inside, Nat.le_refl stop, .inl rfl, sweeps_globstar.mpr (.inl none)⟩
    · obtain ⟨last, low, bound, ends, swept⟩ := (tail separates).mp swept
      exact ⟨last, low, bound, ends, sweeps_globstar.mpr (.inr (.inl ⟨separates, starts, swept⟩))⟩
    · exact ⟨last, low, bound, ends, sweeps_globstar.mpr (.inr (.inr taken))⟩
  · intro earlier
    obtain ⟨last, low, bound, ends, swept⟩ := earlier
    rcases sweeps_globstar.mp swept with none | ⟨separates, starts, swept⟩ | taken
    · exact .inl none
    · have open_ := (tail separates).mpr ⟨last, low, bound, ends, swept⟩
      exact .inr (.inl ⟨separates, starts, open_⟩)
    · exact .inr (.inr ⟨last, low, bound, ends, taken⟩)

theorem openEnded {placement : Placement} (placed : subject.Placed placement stop)
    (sees : Piece.seesSeparators subject.options placement atStart pieces = true)
    (known : subject.atSegmentStart start = true → atStart = true) (inside : start ≤ stop) :
    subject.OpenEnded holds pieces start stop := by
  induction pieces using Piece.sequence_induction generalizing atStart start with
  | nil => exact openEnded_nil inside
  | trailing =>
      simp only [OpenEnded, sweeps_trailing]
      exact acceptsTrailingGlobstar_leading inside
  | inner next rest ih ihGlobstar =>
      have later := Piece.seesSeparators_tail sees
      have latest := Piece.seesSeparators_tail later
      apply openEnded_inner (ih latest (fun _ => rfl) inside)
      intro shorter
      exact ihGlobstar later (fun _ => rfl) shorter
  | fixed piece rest extent takes apart ih =>
      apply openEnded_fixed takes apart
      intro fits stands
      exact ih (Piece.seesSeparators_tail sees) (leavesStart_of_standsAt takes stands known) fits
  | star rest ih =>
      apply openEnded_star placed
      · intro starts
        rw [known starts] at sees
        exact sees
      · intro i low bound clear
        apply ih (Piece.seesSeparators_tail sees) _ bound
        intro starts
        exact known (atSegmentStart_of_unbroken low clear starts)
  | globstar rest ih ihTail =>
      have later := Piece.seesSeparators_tail sees
      apply openEnded_globstar inside fun i bound => ih later (fun _ => rfl) bound
      intro separates
      cases rest with
      | nil => cases separates
      | cons next rest =>
          cases next with
          | separator => exact ihTail (Piece.seesSeparators_tail later) (fun _ => rfl) inside
          | _ => cases separates
  | list quantifier alternatives rest ih =>
      simp only [OpenEnded, sweeps_list]
      apply exists_openEnded (subject.TakesList holds alternatives quantifier start)
      intro i _ bound _
      exact ih (Piece.seesSeparators_tail sees) (fun _ => rfl) bound

theorem accepts_leading_iff_window {placement : Placement}
    (placed : subject.Placed placement stop)
    (detach : Piece.endsDetach subject.options placement atStart pieces = true)
    (sees : Piece.seesSeparators subject.options placement atStart pieces = true)
    (known : subject.atSegmentStart start = true → atStart = true) (inside : start ≤ stop) :
    subject.accepts pieces start stop true = true ↔
      ∃ last, start ≤ last ∧ last ≤ stop ∧ subject.MayEnd stop last ∧
        subject.accepts pieces start last false = true := by
  rw [accepts_leading_iff inside]
  apply Iff.trans (openEnded placed sees known inside)
  apply exists_within_congr
  intro last low below
  rw [accepts_iff_sweeps (placed.mono below) detach known low]

/-- With an open end nothing is taken off, so the `*` sees the literal's leading period. -/
theorem leading_loses_hidden_period {text : List Char}
    (hidden : subject.isHiddenPeriod start = true)
    (stands : subject.literalAt text start = true) (nonempty : 0 < text.length) :
    subject.accepts [.star, .literal text] start (start + text.length) false = true ∧
      subject.accepts [.star, .literal text] start (start + text.length) true = false := by
  refine ⟨accepts_star_literal stands, ?_⟩
  apply Bool.eq_false_iff.mpr
  intro accepted
  have swept := (accepts_leading_iff (Nat.le_add_right start text.length)).mp accepted
  exact (sweeps_star.mp swept).1 ⟨by omega, hidden⟩

/-- A `*` may end right before a hidden period that separates, unless it sees the period. -/
theorem leading_misses_separator (hidden : subject.isHiddenPeriod start = true)
    (separates : subject.isSeparatorAt start = true) :
    subject.MayEnd (start + 1) start ∧ subject.accepts [.star] start start false = true ∧
      subject.accepts [.star] start (start + 1) true = false := by
  refine ⟨.inr separates, accepts_star_empty rfl (accepts_nil.mpr (.inl rfl)), ?_⟩
  apply Bool.eq_false_iff.mpr
  intro accepted
  have swept := (accepts_leading_iff (Nat.le_succ start)).mp accepted
  exact (sweeps_star.mp swept).1 ⟨Nat.lt_succ_self start, hidden⟩

end Subject

namespace Options

def withLeadingDirectories (options : Options) : Options :=
  { options with leadingDirectories := true }

theorem withLeadingDirectories_matchAlike (options : Options) :
    options.withLeadingDirectories.MatchAlike options :=
  ⟨rfl, rfl, rfl, rfl⟩

theorem readAlike_withLeadingDirectories (options : Options) :
    options.ReadAlike options.withLeadingDirectories :=
  ⟨⟨rfl, rfl, rfl, rfl, rfl, rfl, rfl, rfl⟩, rfl⟩

end Options

theorem Subject.agreesBelow_take (text : List Char) {options other : Options} {last : Nat}
    (alike : options.MatchAlike other) :
    (Subject.mk text.toArray options).AgreesBelow ⟨(text.take last).toArray, other⟩ last := by
  refine ⟨?_, alike⟩
  intro i inside
  simp [inside]

namespace Pattern

variable {options : Options} {source : String} {pattern : Pattern}

theorem acceptsChars_iff (pattern : Pattern) {text : List Char}
    (whole : pattern.options.ignoresTrailingSeparator = false) :
    pattern.acceptsChars text = true ↔
      ∃ pieces ∈ pattern.alternatives, (Subject.mk text.toArray pattern.options).accepts pieces 0
        text.length pattern.options.leadingDirectories = true := by
  simp only [acceptsChars, whole, Bool.false_and, Bool.or_false, acceptsUpTo, List.any_eq_true]

/-- Switching leading directories on matches the text up to its end or up to any separator. -/
theorem leadingDirectories_iff_take (text : List Char) (closed : options.leadingDirectories = false)
    (whole : options.ignoresTrailingSeparator = false)
    (compiled : compile options source = .ok pattern)
    (detach : ∀ pieces ∈ pattern.alternatives,
      Piece.endsDetach options ((Subject.mk text.toArray options).placement text.length) true
          pieces = true ∧
        Piece.seesSeparators options ((Subject.mk text.toArray options).placement text.length) true
          pieces = true) :
    ∃ leading, compile options.withLeadingDirectories source = .ok leading ∧
      leading.alternatives = pattern.alternatives ∧
      (leading.acceptsChars text = true ↔
        ∃ last ≤ text.length,
          (last = text.length ∨ text[last]?.any options.isSeparator = true) ∧
            pattern.acceptsChars (text.take last) = true) := by
  have alike := options.withLeadingDirectories_matchAlike
  obtain rfl := options_of_compile compiled
  refine ⟨{ pattern with options := pattern.options.withLeadingDirectories }, ?_, rfl, ?_⟩
  · rw [compile_congr pattern.options.readAlike_withLeadingDirectories, compiled]
    rfl
  · have agrees : (Subject.mk text.toArray pattern.options).AgreesBelow
        ⟨text.toArray, pattern.options.withLeadingDirectories⟩ text.length :=
      ⟨fun _ _ => rfl, alike.symm⟩
    have placed :=
      (Subject.placed_placement ⟨text.toArray, pattern.options⟩ text.length).congr agrees
    have prefixes : ∀ pieces ∈ pattern.alternatives,
        (Subject.mk text.toArray pattern.options.withLeadingDirectories).accepts pieces 0
            text.length true = true ↔
          ∃ last ≤ text.length,
            (last = text.length ∨ text[last]?.any pattern.options.isSeparator = true) ∧
              (Subject.mk (text.take last).toArray pattern.options).accepts pieces 0
                (text.take last).length false = true := by
      intro pieces present
      have ⟨detached, sees⟩ := detach pieces present
      rw [← Piece.endsDetach_congr alike] at detached
      rw [← Piece.seesSeparators_congr alike] at sees
      rw [Subject.accepts_leading_iff_window placed detached sees (fun _ => rfl) (Nat.zero_le _)]
      simp only [Nat.zero_le, true_and]
      apply exists_congr
      intro last
      apply and_congr_right
      intro bound
      rw [List.length_take_of_le bound,
        Subject.accepts_congr (Subject.agreesBelow_take text alike) (Nat.zero_le last)]
      apply and_congr_left
      intro _
      rw [Subject.MayEnd, Subject.isSeparatorAt, List.getElem?_toArray]
      rfl
    refine (acceptsChars_iff ⟨_, _, pattern.options.withLeadingDirectories⟩ whole).trans ?_
    simp only [acceptsChars_iff pattern whole, closed]
    constructor
    · intro accepted
      obtain ⟨pieces, present, held⟩ := accepted
      obtain ⟨last, bound, ends, earlier⟩ := (prefixes pieces present).mp held
      exact ⟨last, bound, ends, pieces, present, earlier⟩
    · intro earlier
      obtain ⟨last, bound, ends, pieces, present, held⟩ := earlier
      exact ⟨pieces, present, (prefixes pieces present).mpr ⟨last, bound, ends, held⟩⟩

theorem leadingDirectories_iff_take_any_directory :
    let options : Options := { ignoresTrailingSeparator := false }
    let pattern : Pattern := ⟨"**/a*b",
      [[.globstar, .separator, .literal ['a'], .star, .literal ['b']]], options⟩
    let text := ['x', '/', 'a', '.', 'b', '/', 'c']
    compile options "**/a*b" = .ok pattern ∧
      ∃ leading, compile options.withLeadingDirectories "**/a*b" = .ok leading ∧
        leading.alternatives = pattern.alternatives ∧
        (leading.acceptsChars text = true ↔
          ∃ last ≤ text.length,
            (last = text.length ∨ text[last]?.any options.isSeparator = true) ∧
              pattern.acceptsChars (text.take last) = true) :=
  have compiled : compile { ignoresTrailingSeparator := false } "**/a*b" =
      .ok ⟨"**/a*b", [[.globstar, .separator, .literal ['a'], .star, .literal ['b']]],
        { ignoresTrailingSeparator := false }⟩ := by
    cbv
  ⟨compiled, leadingDirectories_iff_take _ rfl rfl compiled (by decide +kernel)⟩

end Pattern

end Glob
