import Glob.Proofs.Rules

/-!
Taking the last piece off a sequence. A piece of fixed extent has to match at the end of the window,
and the pieces before it the rest. The rules about the end of a window and about hidden periods
look beyond the piece that they are about, so they may judge the shorter window differently; what
is said here is when they do not.
-/

namespace Glob

/-- Which pieces stand in a place of a text where it can be seen that they were taken off. -/
structure Placement where
  atHiddenPeriod : Piece → Bool
  afterSeparator : Piece → Bool

namespace Piece

/-- Whether a component may begin right after a piece, if `atStart` says so of the place before. -/
def leavesStart (options : Options) (atStart : Bool) : Piece → Bool
  | .separator | .globstar | .list .. => true
  | .literal text => (text.getLast?.map options.isSeparator).getD atStart
  | .anyChar | .bracket .. => false
  | .star => atStart

def beginsWithPeriod (options : Options) : Piece → Bool
  | .literal text => text.head? == some '.'
  | .separator => options.isSeparator '.'
  | .anyChar | .bracket .. | .star | .globstar | .list .. => false

def isSeparator : Piece → Bool
  | .separator => true
  | _ => false

def mayTakeNothing (alternatives : List (List Piece)) : Quantifier → Bool
  | .exactlyOne => alternatives.any fun alternative => (matchLength? alternative).all (· == 0)
  | .zeroOrOne | .zeroOrMore | .negated => true
  | .oneOrMore => false

def mayBeEmpty (options : Options) : List Piece → Bool
  | [] => true
  | [.separator, .globstar] => !options.trailingGlobstarNeedsComponent
  | .separator :: .globstar :: .separator :: rest => mayBeEmpty options (.separator :: rest)
  | .star :: rest => mayBeEmpty options rest
  | .globstar :: .separator :: rest =>
    mayBeEmpty options (.separator :: rest) || mayBeEmpty options rest
  | .globstar :: rest => mayBeEmpty options rest
  | .literal [] :: rest => mayBeEmpty options rest
  | .list quantifier alternatives :: rest =>
    mayTakeNothing alternatives quantifier && mayBeEmpty options rest
  | _ => false

/-- Whether no `*` can stand with nothing between it and a hidden period that follows the pieces. If
it does, the period is in the window of the `*` or not, depending on where the window ends. -/
def starsKeepOff (options : Options) : (atStart : Bool) → List Piece → Bool
  | _, [] => true
  | atStart, .star :: rest =>
    !(atStart && mayBeEmpty options rest) && starsKeepOff options atStart rest
  | atStart, piece :: rest => starsKeepOff options (piece.leavesStart options atStart) rest

/-- Whether a `**` at the end matches the same with `last` after it and at the end of a window. -/
def globstarKeeps (options : Options) (placement : Placement) (last : Piece) :
    (atStart : Bool) → List Piece → Bool
  | _, [] => true
  | _, [.separator, .globstar] =>
    options.trailingGlobstarNeedsComponent && !placement.afterSeparator last ||
      !options.trailingGlobstarNeedsComponent && last.isSeparator
  | atStart, [.globstar] => !(last.isSeparator && atStart)
  | atStart, piece :: rest =>
    globstarKeeps options placement last (piece.leavesStart options atStart) rest

def detaches (options : Options) (placement : Placement) (last : Piece) (atStart : Bool)
    (pieces : List Piece) : Bool :=
  (!placement.atHiddenPeriod last || starsKeepOff options atStart pieces) &&
    globstarKeeps options placement last atStart pieces

def endsInGlobstar : List Piece → Bool
  | [] => false
  | [.separator, .globstar] => true
  | _ :: rest => endsInGlobstar rest

/-- Whether all pieces that the matcher takes off the end of the sequence may be taken off. -/
def endsDetach (options : Options) (placement : Placement) (atStart : Bool)
    (pieces : List Piece) : Bool :=
  match pieces with
  | [] | [.separator, .globstar] | [.globstar, .separator] => true
  | .separator :: .globstar :: rest =>
    (!Subject.startsWithSeparator rest || endsDetach options placement true rest) &&
      endsDetach options placement true (.globstar :: rest)
  | piece :: rest =>
    match piece.extent? with
    | some _ => endsDetach options placement (piece.leavesStart options atStart) rest
    | none =>
      match _found : fixedLast? rest false with
      | none => true
      | some (last, _) =>
        let before := piece :: rest.dropLast
        detaches options placement last atStart before &&
            endsDetach options placement atStart before &&
          (!(last.isSeparator && endsInGlobstar before) ||
            endsDetach options placement atStart before.dropLast)
termination_by pieces.length
decreasing_by
  all_goals simp only [List.length_cons, List.length_dropLast]
  · omega
  · omega
  · omega
  all_goals
    have nonempty : rest ≠ [] := by
      intro same
      subst same
      simp [fixedLast?] at _found
    have := List.length_pos_iff.mpr nonempty
    omega

section

variable {options other : Options} {placement : Placement} {last piece : Piece}
  {pieces rest : List Piece} {atStart : Bool}

theorem endsDetach_open (open_ : piece.extent? = none)
    (longer : ¬(piece = .globstar ∧ rest = [.separator])) :
    endsDetach options placement atStart (piece :: rest) =
      match fixedLast? rest false with
      | none => true
      | some (last, _) =>
        detaches options placement last atStart (piece :: rest.dropLast) &&
            endsDetach options placement atStart (piece :: rest.dropLast) &&
          (!(last.isSeparator && endsInGlobstar (piece :: rest.dropLast)) ||
            endsDetach options placement atStart (piece :: rest.dropLast).dropLast) := by
  rw [endsDetach.eq_def]
  split
  · contradiction
  · rename_i same
    rw [(List.cons.inj same).1] at open_
    cases open_
  · rename_i same
    exact absurd (List.cons.inj same) longer
  · rename_i same
    rw [(List.cons.inj same).1] at open_
    cases open_
  · rename_i same
    cases same
    rw [open_]
    simp only
    split
    · rename_i found
      rw [found]
    · rename_i found
      rw [found]

theorem leavesStart_congr (alike : options.MatchAlike other) :
    piece.leavesStart options atStart = piece.leavesStart other atStart := by
  cases piece with
  | literal text => rw [leavesStart, leavesStart, alike.separators]
  | separator | globstar | list | anyChar | bracket | star => rfl

theorem mayBeEmpty_congr (alike : options.MatchAlike other) :
    mayBeEmpty options pieces = mayBeEmpty other pieces := by
  fun_induction mayBeEmpty options pieces with
  | case1 => rfl
  | case2 => rw [mayBeEmpty, alike.trailing]
  | case3 rest ih => rw [mayBeEmpty, ih]
  | case4 rest ih => rw [mayBeEmpty, ih]
  | case5 rest ihAfter ih => rw [mayBeEmpty, ihAfter, ih]
  | case6 rest _ ih => rw [mayBeEmpty, ih]; assumption
  | case7 rest ih => rw [mayBeEmpty, ih]
  | case8 quantifier alternatives rest ih => rw [mayBeEmpty, ih]
  | case9 => rw [mayBeEmpty] <;> assumption

theorem starsKeepOff_congr (alike : options.MatchAlike other) :
    starsKeepOff options atStart pieces = starsKeepOff other atStart pieces := by
  fun_induction starsKeepOff options atStart pieces with
  | case1 => rfl
  | case2 atStart rest ih => rw [starsKeepOff, ih, mayBeEmpty_congr alike]
  | case3 atStart piece rest _ ih =>
      rw [starsKeepOff, ← leavesStart_congr alike, ih]
      assumption

theorem globstarKeeps_congr (alike : options.MatchAlike other) :
    globstarKeeps options placement last atStart pieces =
      globstarKeeps other placement last atStart pieces := by
  fun_induction globstarKeeps options placement last atStart pieces with
  | case1 => rfl
  | case2 => rw [globstarKeeps, alike.trailing]
  | case3 => rfl
  | case4 atStart piece rest _ _ ih =>
      rw [globstarKeeps, ← leavesStart_congr alike, ih] <;> assumption

theorem detaches_congr (alike : options.MatchAlike other) :
    detaches options placement last atStart pieces =
      detaches other placement last atStart pieces := by
  rw [detaches, detaches, starsKeepOff_congr alike, globstarKeeps_congr alike]

theorem endsDetach_congr (alike : options.MatchAlike other) :
    endsDetach options placement atStart pieces = endsDetach other placement atStart pieces := by
  fun_induction endsDetach options placement atStart pieces with
  | case1 => rw [endsDetach]
  | case2 => rw [endsDetach]
  | case3 => rw [endsDetach]
  | case4 atStart rest _ ih ihGlobstar =>
      rw [endsDetach, ih, ihGlobstar]
      assumption
  | case5 atStart piece rest _ _ _ extent takes ih =>
      rw [endsDetach, takes]
      · rw [← leavesStart_congr alike, ih]
      all_goals assumption
  | case6 atStart piece rest _ single _ open_ found =>
      rw [endsDetach_open open_ (fun both => single both.1 both.2), found]
  | case7 atStart piece rest _ single _ open_ last extent found before ih ihCloser =>
      rw [endsDetach_open open_ (fun both => single both.1 both.2), found]
      simp only
      rw [← detaches_congr alike, ← ih, ← ihCloser]

end

end Piece

def Options.placement (options : Options) : Placement where
  atHiddenPeriod piece := options.explicitLeadingPeriods && piece.beginsWithPeriod options
  afterSeparator _ := true

namespace Subject

def placement (subject : Subject) (stop : Nat) : Placement where
  atHiddenPeriod piece :=
    (List.range stop).any fun i => subject.isHiddenPeriod i && subject.standsAt i piece
  afterSeparator piece :=
    (List.range stop).any fun i => subject.isSeparatorAt i && subject.standsAt (i + 1) piece

/-- The pieces stand in no other places of the text before `stop`. -/
structure Placed (subject : Subject) (placement : Placement) (stop : Nat) : Prop where
  period : ∀ i < stop, ∀ piece extent, piece.extent? = some extent → 0 < extent →
    i + extent ≤ stop → subject.isHiddenPeriod i = true → subject.standsAt i piece = true →
      placement.atHiddenPeriod piece = true
  separator : ∀ i < stop, ∀ piece extent, piece.extent? = some extent → i + 1 + extent ≤ stop →
    subject.isSeparatorAt i = true → subject.standsAt (i + 1) piece = true →
      placement.afterSeparator piece = true

variable {subject other : Subject} {placement : Placement} {stop : Nat}

theorem Placed.mono {lower : Nat} (placed : subject.Placed placement stop)
    (below : lower ≤ stop) : subject.Placed placement lower := by
  constructor
  · intro i inside piece extent takes positive fits
    exact placed.period i (by omega) piece extent takes positive (by omega)
  · intro i inside piece extent takes fits
    exact placed.separator i (by omega) piece extent takes (by omega)

theorem Placed.congr (placed : subject.Placed placement stop)
    (agrees : subject.AgreesBelow other stop) : other.Placed placement stop := by
  constructor
  · intro i inside piece extent takes positive fits hidden stands
    rw [← agrees.isHiddenPeriod inside] at hidden
    rw [← agrees.standsAt takes fits] at stands
    exact placed.period i inside piece extent takes positive fits hidden stands
  · intro i inside piece extent takes fits separates stands
    rw [← agrees.isSeparatorAt inside] at separates
    rw [← agrees.standsAt takes fits] at stands
    exact placed.separator i inside piece extent takes fits separates stands

theorem placed_placement (subject : Subject) (stop : Nat) :
    subject.Placed (subject.placement stop) stop := by
  constructor
  · intro i inside piece extent _ _ _ hidden stands
    apply List.any_eq_true.mpr
    exact ⟨i, List.mem_range.mpr inside, by rw [hidden, stands]; rfl⟩
  · intro i inside piece extent _ _ separates stands
    apply List.any_eq_true.mpr
    exact ⟨i, List.mem_range.mpr inside, by rw [separates, stands]; rfl⟩

end Subject

end Glob
