import Glob.Proofs.Window

/-!
Texts that the matcher cannot tell apart up to a position: it asks where separators and hidden
periods are, and where a piece stands. Texts with the same characters are such texts.
-/

namespace Glob

/-- The matcher reads no other options. -/
structure Options.MatchAlike (options other : Options) : Prop where
  separators : options.isSeparator = other.isSeparator
  periods : options.explicitLeadingPeriods = other.explicitLeadingPeriods
  trailing : options.trailingGlobstarNeedsComponent = other.trailingGlobstarNeedsComponent
  ranges : options.baseLetterRanges = other.baseLetterRanges

theorem Options.MatchAlike.refl (options : Options) : options.MatchAlike options :=
  ⟨rfl, rfl, rfl, rfl⟩

theorem Options.MatchAlike.symm {options other : Options} (alike : options.MatchAlike other) :
    other.MatchAlike options :=
  ⟨alike.separators.symm, alike.periods.symm, alike.trailing.symm, alike.ranges.symm⟩

namespace Piece

variable {options other : Options}

mutual

theorem maySpanComponents_congr (same : options.isSeparator = other.isSeparator) :
    ∀ pieces, maySpanComponents options pieces = maySpanComponents other pieces
  | [] => rfl
  | piece :: rest => by
      rw [maySpanComponents, maySpanComponents, maySpan_congr same piece,
        maySpanComponents_congr same rest]

theorem maySpan_congr (same : options.isSeparator = other.isSeparator) :
    ∀ piece : Piece, piece.maySpan options = piece.maySpan other
  | separator | globstar | anyChar | bracket .. | star => rfl
  | literal text => by rw [maySpan, maySpan, same]
  | list _ alternatives => by rw [maySpan, maySpan, someMaySpan_congr same alternatives]

theorem someMaySpan_congr (same : options.isSeparator = other.isSeparator) :
    ∀ alternatives, someMaySpan options alternatives = someMaySpan other alternatives
  | [] => rfl
  | pieces :: rest => by
      rw [someMaySpan, someMaySpan, maySpanComponents_congr same pieces,
        someMaySpan_congr same rest]

end

end Piece

namespace Subject

variable {subject other : Subject} {bound i : Nat}

theorem atSegmentStart_congr
    (same : ∀ i < bound, subject.isSeparatorAt i = other.isSeparatorAt i) (inside : i ≤ bound) :
    subject.atSegmentStart i = other.atSegmentStart i := by
  unfold Subject.atSegmentStart
  by_cases first : i = 0
  · rw [first]
    rfl
  · rw [same (i - 1) (by omega)]

/-- What the matcher sees of two texts before a position is the same, if it looks for pieces of one
kind only. -/
structure SeenAlike (subject other : Subject) (kind : Piece → Prop) (bound : Nat) : Prop where
  separators : ∀ i < bound, subject.isSeparatorAt i = other.isSeparatorAt i
  periods : ∀ i < bound, subject.isHiddenPeriod i = other.isHiddenPeriod i
  stands : ∀ piece extent i, kind piece → piece.extent? = some extent → i + extent ≤ bound →
    subject.standsAt i piece = other.standsAt i piece
  options : subject.options.MatchAlike other.options

namespace SeenAlike

variable {kind : Piece → Prop}

theorem mono {lower : Nat} (alike : subject.SeenAlike other kind bound) (below : lower ≤ bound) :
    subject.SeenAlike other kind lower :=
  ⟨fun i inside => alike.separators i (Nat.lt_of_lt_of_le inside below),
    fun i inside => alike.periods i (Nat.lt_of_lt_of_le inside below),
    fun piece extent i known takes inside =>
      alike.stands piece extent i known takes (Nat.le_trans inside below),
    alike.options⟩

theorem atSegmentStart (alike : subject.SeenAlike other kind bound) (inside : i ≤ bound) :
    subject.atSegmentStart i = other.atSegmentStart i :=
  atSegmentStart_congr alike.separators inside

theorem unbroken {start last : Nat} (alike : subject.SeenAlike other kind bound)
    (inside : last ≤ bound) : subject.Unbroken start last ↔ other.Unbroken start last := by
  apply forall_congr'
  intro i
  apply imp_congr_right
  intro _
  apply imp_congr_ctx Iff.rfl
  intro before
  rw [alike.separators i (Nat.lt_of_lt_of_le before inside)]

theorem fitsForm {alternative : List Piece} {start last : Nat}
    (alike : subject.SeenAlike other kind bound) (inside : last ≤ bound) :
    subject.FitsForm alternative start last ↔ other.FitsForm alternative start last := by
  unfold FitsForm
  cases Piece.matchLength? alternative with
  | some length => rfl
  | none =>
      rw [Piece.maySpanComponents_congr alike.options.separators, alike.unbroken inside]

theorem acceptsTrailingGlobstar {start stop : Nat} (alike : subject.SeenAlike other kind bound)
    (inside : stop ≤ bound) :
    subject.acceptsTrailingGlobstar start stop = other.acceptsTrailingGlobstar start stop := by
  unfold Subject.acceptsTrailingGlobstar
  rw [alike.options.trailing]
  by_cases shorter : start < stop
  · rw [alike.separators start (Nat.lt_of_lt_of_le shorter inside)]
  · simp [shorter]

theorem endsInZeroDirectories {pieces : List Piece} {start : Nat}
    (alike : subject.SeenAlike other kind bound) (inside : start ≤ bound) :
    subject.endsInZeroDirectories pieces start = other.endsInZeroDirectories pieces start := by
  unfold Subject.endsInZeroDirectories
  rw [alike.atSegmentStart inside]

end SeenAlike

structure AgreesBelow (subject other : Subject) (bound : Nat) : Prop where
  text : ∀ i < bound, subject.text[i]? = other.text[i]?
  options : subject.options.MatchAlike other.options

namespace AgreesBelow

theorem refl (subject : Subject) (bound : Nat) : subject.AgreesBelow subject bound :=
  ⟨fun _ _ => rfl, .refl subject.options⟩

theorem isSeparatorAt (agrees : subject.AgreesBelow other bound) (inside : i < bound) :
    subject.isSeparatorAt i = other.isSeparatorAt i := by
  rw [Subject.isSeparatorAt, Subject.isSeparatorAt, agrees.text i inside,
    agrees.options.separators]

theorem isHiddenPeriod (agrees : subject.AgreesBelow other bound) (inside : i < bound) :
    subject.isHiddenPeriod i = other.isHiddenPeriod i := by
  rw [Subject.isHiddenPeriod, Subject.isHiddenPeriod, agrees.text i inside,
    agrees.options.periods,
    atSegmentStart_congr (fun _ => agrees.isSeparatorAt) (Nat.le_of_lt inside)]

theorem lt_size (agrees : subject.AgreesBelow other bound) (inside : i < bound) :
    i < subject.text.size ↔ i < other.text.size := by
  have same := agrees.text i inside
  constructor
  · intro present
    rw [Array.getElem?_eq_getElem present] at same
    exact (Array.getElem?_eq_some_iff.mp same.symm).1
  · intro present
    rw [Array.getElem?_eq_getElem present] at same
    exact (Array.getElem?_eq_some_iff.mp same).1

theorem isPlainAt (agrees : subject.AgreesBelow other bound) (inside : i < bound) :
    subject.isPlainAt i = other.isPlainAt i := by
  rw [Subject.isPlainAt, Subject.isPlainAt, agrees.isSeparatorAt inside,
    agrees.isHiddenPeriod inside, decide_eq_decide.mpr (agrees.lt_size inside)]

theorem isMemberAt (agrees : subject.AgreesBelow other bound) (inside : i < bound)
    (members : List CharClass) :
    subject.isMemberAt members i = other.isMemberAt members i := by
  rw [Subject.isMemberAt, Subject.isMemberAt, agrees.text i inside, agrees.options.ranges]

theorem literalAt {text : List Char} (agrees : subject.AgreesBelow other bound)
    (inside : i + text.length ≤ bound) :
    subject.literalAt text i = other.literalAt text i := by
  induction text generalizing i with
  | nil => rfl
  | cons c rest ih =>
      rw [List.length_cons] at inside
      rw [Subject.literalAt, Subject.literalAt, agrees.text i (by omega), ih (by omega)]

theorem standsAt {piece : Piece} {extent : Nat} (agrees : subject.AgreesBelow other bound)
    (takes : piece.extent? = some extent) (inside : i + extent ≤ bound) :
    subject.standsAt i piece = other.standsAt i piece := by
  cases piece with
  | separator =>
      cases takes
      exact agrees.isSeparatorAt inside
  | literal text =>
      cases takes
      exact agrees.literalAt inside
  | anyChar =>
      cases takes
      exact agrees.isPlainAt inside
  | bracket members negated =>
      cases takes
      rw [Subject.standsAt, Subject.standsAt, agrees.isPlainAt inside, agrees.isMemberAt inside]
  | star | globstar | list => rfl

theorem seenAlike (agrees : subject.AgreesBelow other bound) :
    subject.SeenAlike other (fun _ => True) bound :=
  ⟨fun _ => agrees.isSeparatorAt, fun _ => agrees.isHiddenPeriod,
    fun _ _ _ _ => agrees.standsAt, agrees.options⟩

end AgreesBelow

end Subject

end Glob
