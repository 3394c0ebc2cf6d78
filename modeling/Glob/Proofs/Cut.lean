import Glob.Proofs.Detach

/-! A sweep over a sequence ends with its last piece, where that piece may be taken off. -/

namespace Glob

open Relation (TransGen)

namespace Piece

variable {options : Options} {placement : Placement} {piece last : Piece}
  {rest pieces : List Piece} {atStart : Bool}

theorem isSeparator_iff : last.isSeparator = true ↔ last = .separator := by
  cases last <;> simp [isSeparator]

theorem endsInGlobstar_cons (longer : ¬(piece = .separator ∧ rest = [.globstar])) :
    endsInGlobstar (piece :: rest) = endsInGlobstar rest := by
  rw [endsInGlobstar]
  intro same also
  subst same
  subst also
  exact longer ⟨rfl, rfl⟩

theorem ne_nil_of_endsInGlobstar (ends : endsInGlobstar pieces = true) : pieces ≠ [] := by
  intro same
  subst same
  simp [endsInGlobstar] at ends

theorem endsInGlobstar_iff : endsInGlobstar pieces = true ↔
    ∃ before, pieces = before ++ [.separator, .globstar] := by
  constructor
  · intro ends
    fun_induction endsInGlobstar pieces with
    | case1 => simp at ends
    | case2 => exact ⟨[], rfl⟩
    | case3 piece rest _ ih =>
        obtain ⟨before, rfl⟩ := ih ends
        exact ⟨piece :: before, rfl⟩
  · intro given
    rcases given with ⟨before, rfl⟩
    induction before with
    | nil => rfl
    | cons piece before ih =>
        rw [List.cons_append, endsInGlobstar_cons (by cases before <;> simp)]
        exact ih

theorem endsInGlobstar_cons_of_ends (ends : endsInGlobstar rest = true) :
    endsInGlobstar (piece :: rest) = true := by
  obtain ⟨before, rfl⟩ := endsInGlobstar_iff.mp ends
  exact endsInGlobstar_iff.mpr ⟨piece :: before, rfl⟩

theorem endsInGlobstar_tail (open_ : endsInGlobstar (piece :: rest) = false) :
    endsInGlobstar rest = false := by
  apply Bool.eq_false_iff.mpr
  intro ends
  rw [endsInGlobstar_cons_of_ends ends] at open_
  cases open_

theorem getLast?_of_endsInGlobstar (ends : endsInGlobstar pieces = true) :
    pieces.getLast? = some .globstar := by
  obtain ⟨before, rfl⟩ := endsInGlobstar_iff.mp ends
  simp

theorem dropLast_ne_nil_of_endsInGlobstar (ends : endsInGlobstar pieces = true) :
    pieces.dropLast ≠ [] := by
  obtain ⟨before, rfl⟩ := endsInGlobstar_iff.mp ends
  simp

theorem dropLast_cons_of_ends (ends : endsInGlobstar rest = true) :
    (piece :: rest).dropLast = piece :: rest.dropLast :=
  List.dropLast_cons_of_ne_nil (ne_nil_of_endsInGlobstar ends)

theorem endsInGlobstar_of_apart (apart : ¬OpensGlobstar piece rest) :
    endsInGlobstar (piece :: rest) = endsInGlobstar rest :=
  endsInGlobstar_cons fun both => apart ⟨both.1, [], both.2⟩

theorem not_opensGlobstar_append {more : List Piece} (apart : ¬OpensGlobstar piece rest)
    (other : ∀ after, more ≠ .globstar :: after) : ¬OpensGlobstar piece (rest ++ more) := by
  rintro ⟨separates, after, opens⟩
  rcases rest with _ | ⟨next, rest⟩
  · exact other after opens
  · exact apart ⟨separates, rest, by rw [(List.cons.inj opens).1]⟩

theorem ne_globstar_cons {extent : Nat} (takes : last.extent? = some extent)
    (after : List Piece) : last :: rest ≠ .globstar :: after := by
  intro same
  rw [(List.cons.inj same).1] at takes
  cases takes

theorem not_opensGlobstar_concat {extent : Nat} (apart : ¬OpensGlobstar piece rest)
    (takes : last.extent? = some extent) : ¬OpensGlobstar piece (rest ++ [last]) :=
  not_opensGlobstar_append apart (ne_globstar_cons takes)

theorem not_opensGlobstar_dropLast (apart : ¬OpensGlobstar piece rest) :
    ¬OpensGlobstar piece rest.dropLast := by
  rintro ⟨separates, more, opens⟩
  rcases rest with _ | ⟨next, _ | ⟨after, rest⟩⟩
  · cases opens
  · cases opens
  · exact apart ⟨separates, after :: rest, by rw [(List.cons.inj opens).1]⟩

theorem mayBeEmpty_of_starsKeepOff (kept : starsKeepOff options true (.star :: rest) = true) :
    mayBeEmpty options rest = false := by
  simp only [starsKeepOff, Bool.true_and, Bool.and_eq_true, Bool.not_eq_true'] at kept
  exact kept.1

theorem starsKeepOff_tail (kept : starsKeepOff options atStart (piece :: rest) = true) :
    starsKeepOff options (piece.leavesStart options atStart) rest = true := by
  cases piece with
  | star =>
      simp only [starsKeepOff, Bool.and_eq_true] at kept
      exact kept.2
  | separator | globstar | anyChar | literal | bracket | list => exact kept

theorem globstarKeeps_tail (longer : ¬(piece = .separator ∧ rest = [.globstar]))
    (more : ¬(piece = .globstar ∧ rest = []))
    (kept : globstarKeeps options placement last atStart (piece :: rest) = true) :
    globstarKeeps options placement last (piece.leavesStart options atStart) rest = true := by
  rw [globstarKeeps] at kept
  · exact kept
  · intro same also
    subst same
    subst also
    exact longer ⟨rfl, rfl⟩
  · intro same also
    subst same
    subst also
    exact more ⟨rfl, rfl⟩

theorem detaches_tail (detached : detaches options placement last atStart (piece :: rest) = true)
    (longer : ¬(piece = .separator ∧ rest = [.globstar]))
    (more : ¬(piece = .globstar ∧ rest = [])) :
    detaches options placement last (piece.leavesStart options atStart) rest = true := by
  simp only [detaches, Bool.and_eq_true, Bool.or_eq_true] at detached ⊢
  exact ⟨detached.1.imp_right starsKeepOff_tail, globstarKeeps_tail longer more detached.2⟩

theorem detaches_trailing (detached :
    detaches options placement last atStart [.separator, .globstar] = true) :
    options.trailingGlobstarNeedsComponent = true ∧ placement.afterSeparator last = false ∨
      options.trailingGlobstarNeedsComponent = false ∧ last = .separator := by
  simp only [detaches, globstarKeeps, Bool.and_eq_true, Bool.or_eq_true, isSeparator_iff,
    Bool.not_eq_true'] at detached
  exact detached.2

theorem detaches_globstar (detached : detaches options placement last atStart [.globstar] = true) :
    ¬(last = .separator ∧ atStart = true) := by
  simp only [detaches, globstarKeeps, Bool.and_eq_true, Bool.not_eq_true',
    Bool.and_eq_false_iff] at detached
  intro given
  rcases given with ⟨rfl, rfl⟩
  simp [isSeparator] at detached

theorem detaches_star
    (detached : detaches options placement last true (.star :: rest) = true)
    (period : placement.atHiddenPeriod last = true) : mayBeEmpty options rest = false := by
  simp only [detaches, period, Bool.and_eq_true, Bool.not_true, Bool.false_or] at detached
  exact mayBeEmpty_of_starsKeepOff detached.1

end Piece

namespace Subject

variable {subject : Subject} {holds : List Piece → Nat → Nat → Bool} {placement : Placement}
  {piece : Piece} {rest : List Piece} {start middle extent : Nat}

theorem isSeparatorAt_eq {i : Nat} : subject.isSeparatorAt i = true ↔
    ∃ c, subject.text[i]? = some c ∧ subject.options.isSeparator c = true := by
  simp [isSeparatorAt, Option.any_eq_true]

theorem literalAt_iff {text : List Char} : subject.literalAt text start = true ↔
    ∀ (i : Nat) (_ : i < text.length), subject.text[start + i]? = some text[i] := by
  induction text generalizing start with
  | nil => simp [literalAt]
  | cons c rest ih =>
      simp only [literalAt, Bool.and_eq_true, beq_iff_eq, ih]
      constructor
      · intro both i inside
        rcases both with ⟨first, later⟩
        cases i with
        | zero => exact first
        | succ i =>
            have shifted := later i (by simpa using inside)
            rw [show start + 1 + i = start + (i + 1) by omega] at shifted
            exact shifted
      · intro every
        refine ⟨every 0 (by simp), fun i inside => ?_⟩
        have shifted := every (i + 1) (by simpa using inside)
        rw [show start + (i + 1) = start + 1 + i by omega] at shifted
        exact shifted

theorem atSegmentStart_iff {i : Nat} : subject.atSegmentStart i = true ↔
    i = 0 ∨ subject.isSeparatorAt (i - 1) = true := by
  simp [atSegmentStart]

theorem leavesStart_of_standsAt {atStart : Bool} (takes : piece.extent? = some extent)
    (stands : subject.standsAt start piece = true)
    (known : subject.atSegmentStart start = true → atStart = true)
    (starts : subject.atSegmentStart (start + extent) = true) :
    piece.leavesStart subject.options atStart = true := by
  have plain : subject.isPlainAt start = true → extent = 1 → False := by
    intro plain one
    simp only [isPlainAt, Bool.and_eq_true, Bool.not_eq_true'] at plain
    subst one
    rcases atSegmentStart_iff.mp starts with zero | separates
    · omega
    · rw [Nat.add_sub_cancel, plain.1.2] at separates
      exact Bool.false_ne_true separates
  cases piece with
  | separator | globstar | list => rfl
  | star => cases takes
  | anyChar =>
      cases takes
      exact (plain stands rfl).elim
  | bracket members negated =>
      cases takes
      simp only [standsAt, Bool.and_eq_true] at stands
      exact (plain stands.1 rfl).elim
  | literal text =>
      cases takes
      cases ends : text.getLast? with
      | none =>
          obtain rfl := List.getLast?_eq_none_iff.mp ends
          simpa [Piece.leavesStart] using known starts
      | some c =>
          have nonempty : text ≠ [] := by
            intro same
            subst same
            cases ends
          have positive := List.length_pos_iff.mpr nonempty
          have here := literalAt_iff.mp stands (text.length - 1) (by omega)
          rw [← List.getLast_eq_getElem nonempty] at here
          rw [List.getLast?_eq_some_getLast nonempty] at ends
          rcases atSegmentStart_iff.mp starts with zero | separates
          · omega
          · obtain ⟨d, there, separator⟩ := isSeparatorAt_eq.mp separates
            rw [show start + text.length - 1 = start + (text.length - 1) by omega, here] at there
            cases ends
            cases there
            simpa [Piece.leavesStart, List.getLast?_eq_some_getLast nonempty] using separator

theorem atSegmentStart_of_unbroken (low : start ≤ middle)
    (clear : subject.Unbroken start middle) (starts : subject.atSegmentStart middle = true) :
    subject.atSegmentStart start = true := by
  by_cases same : start = middle
  · rw [same]
    exact starts
  · rcases atSegmentStart_iff.mp starts with zero | separates
    · omega
    · rw [clear (middle - 1) (by omega) (by omega)] at separates
      exact absurd separates Bool.false_ne_true

theorem isHiddenPeriod_iff {i : Nat} : subject.isHiddenPeriod i = true ↔
    subject.options.explicitLeadingPeriods = true ∧ subject.text[i]? = some '.' ∧
      subject.atSegmentStart i = true := by
  simp [isHiddenPeriod, and_assoc]

theorem beginsWithPeriod_of_standsAt (takes : piece.extent? = some extent) (nonempty : 0 < extent)
    (stands : subject.standsAt start piece = true)
    (hidden : subject.isHiddenPeriod start = true) :
    piece.beginsWithPeriod subject.options = true := by
  have ⟨_, period, _⟩ := isHiddenPeriod_iff.mp hidden
  cases piece with
  | separator =>
      obtain ⟨c, here, separates⟩ := isSeparatorAt_eq.mp stands
      rw [period] at here
      cases here
      exact separates
  | literal text =>
      cases takes
      have first := literalAt_iff.mp stands 0 nonempty
      rw [Nat.add_zero, period] at first
      simp [Piece.beginsWithPeriod, List.head?_eq_getElem?, List.getElem?_eq_getElem nonempty,
        ← Option.some.inj first]
  | anyChar => simp [standsAt, isPlainAt, hidden] at stands
  | bracket members negated => simp [standsAt, isPlainAt, hidden] at stands
  | star | globstar | list => cases takes

theorem placed_options (subject : Subject) (stop : Nat) :
    subject.Placed subject.options.placement stop := by
  constructor
  · intro i _ piece extent takes positive _ hidden stands
    have ⟨explicit, _, _⟩ := isHiddenPeriod_iff.mp hidden
    have period := beginsWithPeriod_of_standsAt takes positive stands hidden
    simp only [Options.placement, explicit, period, Bool.and_self]
  · intro _ _ _ _ _ _ _ _
    rfl

theorem mayTakeNothing_of_takesList {quantifier : Quantifier}
    {alternatives : List (List Piece)}
    (takes : subject.TakesList holds alternatives quantifier start start) :
    Piece.mayTakeNothing alternatives quantifier = true := by
  cases quantifier with
  | exactlyOne =>
      obtain ⟨alternative, present, _, fits, _⟩ := takes
      apply List.any_eq_true.mpr
      refine ⟨alternative, present, ?_⟩
      unfold FitsForm at fits
      cases form : Piece.matchLength? alternative with
      | none => rfl
      | some length =>
          rw [form] at fits
          simpa using fits
  | oneOrMore =>
      obtain ⟨_, first, chain⟩ := TransGen.head'_iff.mp takes
      have low := le_of_chain chain
      have further := first.1
      omega
  | zeroOrOne | zeroOrMore | negated => rfl

theorem mayBeEmpty_of_sweeps (swept : subject.Sweeps holds rest start start false) :
    Piece.mayBeEmpty subject.options rest = true := by
  induction rest using Piece.sequence_induction with
  | nil => rfl
  | trailing =>
      simp only [sweeps_trailing, acceptsTrailingGlobstar] at swept
      cases needs : subject.options.trailingGlobstarNeedsComponent with
      | true => simp [needs] at swept
      | false => simp [Piece.mayBeEmpty, needs]
  | inner next rest ih _ =>
      rcases sweeps_inner.mp swept with ⟨separates, swept⟩ | ⟨shorter, _⟩
      · cases next with
        | separator =>
            rw [Piece.mayBeEmpty]
            exact ih swept
        | _ => cases separates
      · omega
  | fixed piece rest extent takes apart ih =>
      obtain ⟨bound, _, later⟩ := (sweeps_fixed takes apart).mp swept
      obtain rfl : extent = 0 := by omega
      cases piece with
      | literal text =>
          obtain rfl : text = [] := List.length_eq_zero_iff.mp (Option.some.inj takes)
          rw [Piece.mayBeEmpty]
          exact ih later
      | _ => cases takes
  | star rest ih =>
      obtain ⟨_, last, low, bound, _, swept⟩ := sweeps_star.mp swept
      obtain rfl : start = last := by omega
      rw [Piece.mayBeEmpty]
      exact ih swept
  | globstar rest ih ihTail =>
      rcases sweeps_globstar.mp swept with rfl | ⟨separates, _, swept⟩ | ⟨last, low, bound, swept⟩
      · rfl
      · cases rest with
        | nil => cases separates
        | cons next rest =>
            cases next with
            | separator =>
                have empty : Piece.mayBeEmpty subject.options rest = true := ihTail swept
                rw [Piece.mayBeEmpty, empty]
                exact Bool.or_true _
            | _ => cases separates
      · obtain rfl : start = last := by omega
        have empty := ih swept
        cases rest with
        | nil => rfl
        | cons next rest =>
            cases next with
            | separator =>
                rw [Piece.mayBeEmpty, empty]
                exact Bool.true_or _
            | _ => exact empty
  | list quantifier alternatives rest ih =>
      obtain ⟨last, low, bound, takes, swept⟩ := sweeps_list.mp swept
      obtain rfl : start = last := by omega
      rw [Piece.mayBeEmpty, mayTakeNothing_of_takesList takes, ih swept]
      rfl

/-- What a sweep over `pieces` and then `last` comes to at the end of the window: `last` stands
there, or it ends a `/**/` that stands for a single separator. -/
def EndsWith (subject : Subject) (holds : List Piece → Nat → Nat → Bool) (pieces : List Piece)
    (last : Piece) (extent start stop : Nat) : Prop :=
  (last = .separator ∧ Piece.endsInGlobstar pieces = true ∧
      subject.Sweeps holds pieces.dropLast start stop false) ∨
    start + extent ≤ stop ∧ subject.standsAt (stop - extent) last = true ∧
      subject.Sweeps holds pieces start (stop - extent) false

section

variable {pieces : List Piece} {last next : Piece} {stop : Nat} {atStart : Bool}

/-- The end of the window does not matter for how far the first piece reaches. -/
theorem exists_endsWith {takes : Nat → Prop} :
    (∃ i, start ≤ i ∧ i ≤ stop ∧ takes i ∧ subject.EndsWith holds rest last extent i stop) ↔
      (last = .separator ∧ Piece.endsInGlobstar rest = true ∧
          ∃ i, start ≤ i ∧ i ≤ stop ∧ takes i ∧
            subject.Sweeps holds rest.dropLast i stop false) ∨
        start + extent ≤ stop ∧ subject.standsAt (stop - extent) last = true ∧
          ∃ i, start ≤ i ∧ i ≤ stop - extent ∧ takes i ∧
            subject.Sweeps holds rest i (stop - extent) false := by
  constructor
  · intro given
    rcases given with ⟨i, low, bound, taken, ⟨closes, ends, swept⟩ | ⟨fits, stands, swept⟩⟩
    · exact .inl ⟨closes, ends, i, low, bound, taken, swept⟩
    · exact .inr ⟨by omega, stands, i, low, by omega, taken, swept⟩
  · intro given
    rcases given with ⟨closes, ends, i, low, bound, taken, swept⟩ |
      ⟨fits, stands, i, low, bound, taken, swept⟩
    · exact ⟨i, low, bound, taken, .inl ⟨closes, ends, swept⟩⟩
    · exact ⟨i, low, by omega, taken, .inr ⟨by omega, stands, swept⟩⟩

theorem sweeps_single (takes : last.extent? = some extent) :
    subject.Sweeps holds [last] start stop false ↔
      start + extent = stop ∧ subject.standsAt start last = true := by
  rw [sweeps_fixed takes (by simp [Piece.OpensGlobstar]), sweeps_nil]
  simp only [Bool.false_eq_true, false_and, or_false]
  constructor
  · intro given
    rcases given with ⟨_, stands, ends⟩
    exact ⟨ends, stands⟩
  · intro given
    rcases given with ⟨ends, stands⟩
    exact ⟨by omega, stands, ends⟩

theorem exists_of_startsWithSeparator (separates : startsWithSeparator rest = true) :
    ∃ after, rest = .separator :: after := by
  rcases rest with _ | ⟨next, rest⟩
  · cases separates
  · cases next with
    | separator => exact ⟨rest, rfl⟩
    | literal | anyChar | bracket | star | globstar | list => cases separates

theorem eq_separator_of_startsWithSeparator
    (separates : startsWithSeparator (last :: rest) = true) : last = .separator := by
  obtain ⟨_, same⟩ := exists_of_startsWithSeparator separates
  exact (List.cons.inj same).1

theorem sweeps_globstar_separator :
    subject.Sweeps holds [.globstar, .separator] start stop false ↔
      subject.atSegmentStart start = true ∧ start = stop ∨
        start < stop ∧ subject.isSeparatorAt (stop - 1) = true := by
  simp only [sweeps_globstar, sweeps_single (rfl : Piece.separator.extent? = some 1), standsAt,
    startsWithSeparator, List.tail_cons, sweeps_nil, List.cons_ne_nil, Bool.false_eq_true,
    false_and, or_false, false_or, true_and]
  constructor
  · intro given
    rcases given with ⟨starts, same⟩ | ⟨i, low, _, rfl, separates⟩
    · exact .inl ⟨starts, same⟩
    · exact .inr ⟨by omega, separates⟩
  · intro given
    rcases given with ⟨starts, same⟩ | ⟨shorter, separates⟩
    · exact .inl ⟨starts, same⟩
    · exact .inr ⟨stop - 1, by omega, by omega, by omega, separates⟩

theorem sweeps_concat_trailing_needs (placed : subject.Placed placement stop)
    (needs : subject.options.trailingGlobstarNeedsComponent = true)
    (elsewhere : placement.afterSeparator last = false) (takes : last.extent? = some extent) :
    subject.Sweeps holds [.separator, .globstar, last] start stop false ↔
      subject.EndsWith holds [.separator, .globstar] last extent start stop := by
  constructor
  · intro swept
    rcases sweeps_inner.mp swept with ⟨separates, single⟩ | ⟨shorter, separates, swept⟩
    · obtain rfl := eq_separator_of_startsWithSeparator separates
      exact .inl ⟨rfl, rfl, single⟩
    · rcases sweeps_globstar.mp swept with none | ⟨closes, _, final⟩ | ⟨i, low, bound, single⟩
      · cases none
      · obtain rfl := eq_separator_of_startsWithSeparator closes
        have same : start + 1 = stop := by simpa [sweeps_nil] using final
        exact .inl ⟨rfl, rfl, (sweeps_single rfl).mpr ⟨same, separates⟩⟩
      · obtain ⟨rfl, stands⟩ := (sweeps_single takes).mp single
        have further : start + 1 ≠ i := by
          intro same
          rw [← same] at stands
          rw [placed.separator start shorter last extent takes (by omega) separates stands]
            at elsewhere
          cases elsewhere
        refine .inr ⟨by omega, ?_, ?_⟩
        · rw [Nat.add_sub_cancel]
          exact stands
        · rw [Nat.add_sub_cancel, sweeps_trailing, acceptsTrailingGlobstar_needs needs]
          exact ⟨by omega, separates⟩
  · intro given
    apply sweeps_inner.mpr
    rcases given with ⟨rfl, _, single⟩ | ⟨fits, stands, trails⟩
    · exact .inl ⟨rfl, single⟩
    · obtain ⟨component, separates⟩ :=
        (acceptsTrailingGlobstar_needs needs).mp (sweeps_trailing.mp trails)
      have single : subject.Sweeps holds [last] (stop - extent) stop false :=
        (sweeps_single takes).mpr ⟨Nat.sub_add_cancel (by omega), stands⟩
      exact .inr ⟨by omega, separates,
        sweeps_globstar.mpr (.inr (.inr ⟨stop - extent, by omega, by omega, single⟩))⟩

/-- Without a need for a component, a final `/**/` is a separator at the end and, unless it is that
same one, a separator at the start. -/
theorem sweeps_concat_trailing (free : subject.options.trailingGlobstarNeedsComponent = false) :
    subject.Sweeps holds [.separator, .globstar, .separator] start stop false ↔
      subject.EndsWith holds [.separator, .globstar] .separator 1 start stop := by
  simp only [EndsWith, sweeps_inner, sweeps_trailing, acceptsTrailingGlobstar, free,
    sweeps_globstar_separator, sweeps_single (rfl : Piece.separator.extent? = some 1), standsAt,
    startsWithSeparator, Piece.endsInGlobstar, List.dropLast, true_and, Bool.false_eq_true,
    if_false, Bool.or_eq_true, beq_iff_eq, Bool.and_eq_true, decide_eq_true_eq]
  constructor
  · intro given
    rcases given with single | ⟨shorter, separates, ⟨_, rfl⟩ | ⟨further, closes⟩⟩
    · exact .inl single
    · exact .inl ⟨rfl, separates⟩
    · exact .inr ⟨shorter, closes, .inr ⟨by omega, separates⟩⟩
  · intro given
    rcases given with single | ⟨shorter, closes, same | ⟨further, separates⟩⟩
    · exact .inl single
    · rw [← same] at closes
      exact .inl ⟨by omega, closes⟩
    · exact .inr ⟨by omega, separates, .inr ⟨by omega, closes⟩⟩

theorem startsWithSeparator_concat (nonempty : rest ≠ []) :
    startsWithSeparator (rest ++ [last]) = startsWithSeparator rest := by
  cases rest with
  | nil => exact absurd rfl nonempty
  | cons next rest => cases next <;> rfl

theorem startsWithSeparator_dropLast (ends : Piece.endsInGlobstar rest = true) :
    startsWithSeparator rest.dropLast = startsWithSeparator rest := by
  obtain ⟨before, rfl⟩ := Piece.endsInGlobstar_iff.mp ends
  rw [List.dropLast_append_of_ne_nil (by simp)]
  cases before with
  | nil => rfl
  | cons next before => cases next <;> rfl

theorem sweeps_concat_inner
    (ih : ∀ start ≤ stop, subject.Sweeps holds (next :: rest ++ [last]) start stop false ↔
      subject.EndsWith holds (next :: rest) last extent start stop)
    (ihGlobstar : ∀ start ≤ stop,
      subject.Sweeps holds (.globstar :: next :: rest ++ [last]) start stop false ↔
        subject.EndsWith holds (.globstar :: next :: rest) last extent start stop)
    (inside : start ≤ stop) :
    subject.Sweeps holds (.separator :: .globstar :: next :: rest ++ [last]) start stop false ↔
      subject.EndsWith holds (.separator :: .globstar :: next :: rest) last extent start stop := by
  have ends : Piece.endsInGlobstar (.globstar :: next :: rest) =
      Piece.endsInGlobstar (next :: rest) := Piece.endsInGlobstar_cons (by simp)
  have endsAll : Piece.endsInGlobstar (.separator :: .globstar :: next :: rest) =
      Piece.endsInGlobstar (next :: rest) := by
    rw [Piece.endsInGlobstar_cons (by simp), ends]
  have dropped (closes : Piece.endsInGlobstar (next :: rest) = true) :
      subject.Sweeps holds (.separator :: .globstar :: next :: rest).dropLast start stop false ↔
        startsWithSeparator (next :: rest) = true ∧
            subject.Sweeps holds (next :: rest).dropLast start stop false ∨
          start < stop ∧ subject.isSeparatorAt start = true ∧
            subject.Sweeps holds (.globstar :: next :: rest).dropLast (start + 1) stop false := by
    rw [← startsWithSeparator_dropLast closes]
    cases rest with
    | nil => cases next <;> simp [Piece.endsInGlobstar] at closes
    | cons after rest => exact sweeps_inner
  simp only [List.cons_append] at ih ihGlobstar ⊢
  rw [sweeps_inner, ← List.cons_append, startsWithSeparator_concat (List.cons_ne_nil next rest)]
  constructor
  · intro given
    rcases given with ⟨separates, swept⟩ | ⟨shorter, separates, swept⟩
    · rcases (ih start inside).mp swept with ⟨closes, final, swept⟩ | ⟨fits, stands, swept⟩
      · exact .inl ⟨closes, endsAll ▸ final, (dropped final).mpr (.inl ⟨separates, swept⟩)⟩
      · exact .inr ⟨fits, stands, sweeps_inner.mpr (.inl ⟨separates, swept⟩)⟩
    · rcases (ihGlobstar (start + 1) shorter).mp swept with
        ⟨closes, final, swept⟩ | ⟨fits, stands, swept⟩
      · rw [ends] at final
        exact .inl ⟨closes, endsAll ▸ final,
          (dropped final).mpr (.inr ⟨shorter, separates, swept⟩)⟩
      · exact .inr ⟨by omega, stands, sweeps_inner.mpr (.inr ⟨by omega, separates, swept⟩)⟩
  · intro given
    rcases given with ⟨closes, final, swept⟩ | ⟨fits, stands, swept⟩
    · rw [endsAll] at final
      rcases (dropped final).mp swept with ⟨separates, swept⟩ | ⟨shorter, separates, swept⟩
      · exact .inl ⟨separates, (ih start inside).mpr (.inl ⟨closes, final, swept⟩)⟩
      · exact .inr ⟨shorter, separates,
          (ihGlobstar (start + 1) shorter).mpr (.inl ⟨closes, ends ▸ final, swept⟩)⟩
    · rcases sweeps_inner.mp swept with ⟨separates, swept⟩ | ⟨shorter, separates, swept⟩
      · exact .inl ⟨separates, (ih start inside).mpr (.inr ⟨fits, stands, swept⟩)⟩
      · exact .inr ⟨by omega, separates,
          (ihGlobstar (start + 1) (by omega)).mpr (.inr ⟨by omega, stands, swept⟩)⟩

theorem sweeps_concat_fixed {length : Nat} (takes : piece.extent? = some length)
    (apart : ¬Piece.OpensGlobstar piece rest) (takesLast : last.extent? = some extent)
    (ih : start + length ≤ stop → subject.standsAt start piece = true →
      (subject.Sweeps holds (rest ++ [last]) (start + length) stop false ↔
        subject.EndsWith holds rest last extent (start + length) stop)) :
    subject.Sweeps holds (piece :: rest ++ [last]) start stop false ↔
      subject.EndsWith holds (piece :: rest) last extent start stop := by
  have ends : Piece.endsInGlobstar (piece :: rest) = Piece.endsInGlobstar rest :=
    Piece.endsInGlobstar_of_apart apart
  have dropped (final : Piece.endsInGlobstar rest = true) :
      subject.Sweeps holds (piece :: rest).dropLast start stop false ↔
        start + length ≤ stop ∧ subject.standsAt start piece = true ∧
          subject.Sweeps holds rest.dropLast (start + length) stop false := by
    rw [List.dropLast_cons_of_ne_nil (Piece.ne_nil_of_endsInGlobstar final)]
    exact sweeps_fixed takes (Piece.not_opensGlobstar_dropLast apart)
  rw [List.cons_append, sweeps_fixed takes (Piece.not_opensGlobstar_concat apart takesLast)]
  constructor
  · intro ⟨fits, stands, swept⟩
    rcases (ih fits stands).mp swept with ⟨closes, final, swept⟩ | ⟨fitsLast, standsLast, swept⟩
    · exact .inl ⟨closes, ends ▸ final, (dropped final).mpr ⟨fits, stands, swept⟩⟩
    · exact .inr ⟨by omega, standsLast,
        (sweeps_fixed takes apart).mpr ⟨by omega, stands, swept⟩⟩
  · intro given
    rcases given with ⟨closes, final, swept⟩ | ⟨fitsLast, standsLast, swept⟩
    · rw [ends] at final
      obtain ⟨fits, stands, swept⟩ := (dropped final).mp swept
      exact ⟨fits, stands, (ih fits stands).mpr (.inl ⟨closes, final, swept⟩)⟩
    · obtain ⟨fits, stands, swept⟩ := (sweeps_fixed takes apart).mp swept
      exact ⟨by omega, stands, (ih (by omega) stands).mpr (.inr ⟨by omega, standsLast, swept⟩)⟩

/-- The one place where a `*` sees the end of the window: a hidden period right at it. -/
theorem sweeps_concat_star (placed : subject.Placed placement stop)
    (takesLast : last.extent? = some extent)
    (detached : Piece.detaches subject.options placement last atStart (.star :: rest) = true)
    (known : subject.atSegmentStart start = true → atStart = true)
    (ih : ∀ i, start ≤ i → i ≤ stop → subject.Unbroken start i →
      (subject.Sweeps holds (rest ++ [last]) i stop false ↔
        subject.EndsWith holds rest last extent i stop)) :
    subject.Sweeps holds (.star :: rest ++ [last]) start stop false ↔
      subject.EndsWith holds (.star :: rest) last extent start stop := by
  have ends : Piece.endsInGlobstar (.star :: rest) = Piece.endsInGlobstar rest :=
    Piece.endsInGlobstar_cons (by simp)
  have step : (∃ i, start ≤ i ∧ i ≤ stop ∧ subject.Unbroken start i ∧
      subject.Sweeps holds (rest ++ [last]) i stop false) ↔
        ∃ i, start ≤ i ∧ i ≤ stop ∧ subject.Unbroken start i ∧
          subject.EndsWith holds rest last extent i stop := by
    apply exists_within_congr
    intro i low bound
    apply and_congr_right
    intro clear
    exact ih i low bound clear
  have dropped (final : Piece.endsInGlobstar rest = true) :
      (Piece.star :: rest).dropLast = .star :: rest.dropLast :=
    List.dropLast_cons_of_ne_nil (Piece.ne_nil_of_endsInGlobstar final)
  rw [List.cons_append, sweeps_star, step, exists_endsWith]
  constructor
  · intro given
    rcases given with ⟨visible, ⟨closes, final, swept⟩ | ⟨fits, stands, swept⟩⟩
    · refine .inl ⟨closes, ends ▸ final, ?_⟩
      rw [dropped final]
      exact sweeps_star.mpr ⟨visible, swept⟩
    · exact .inr ⟨fits, stands, sweeps_star.mpr ⟨fun hidden => visible ⟨by omega, hidden.2⟩, swept⟩⟩
  · intro given
    rcases given with ⟨closes, final, swept⟩ | ⟨fits, stands, swept⟩
    · rw [ends] at final
      rw [dropped final] at swept
      obtain ⟨visible, swept⟩ := sweeps_star.mp swept
      exact ⟨visible, .inl ⟨closes, final, swept⟩⟩
    · obtain ⟨visible, i, low, bound, clear, following⟩ := sweeps_star.mp swept
      refine ⟨?_, .inr ⟨fits, stands, i, low, bound, clear, following⟩⟩
      intro ⟨shorter, hidden⟩
      have final : start = stop - extent := by
        by_contra before
        exact visible ⟨by omega, hidden⟩
      have here : i = start := by omega
      have positive : 0 < extent := by omega
      rw [here, ← final] at following
      rw [← final] at stands
      have ⟨_, _, starts⟩ := isHiddenPeriod_iff.mp hidden
      have period := placed.period start shorter last extent takesLast positive (by omega) hidden
        stands
      rw [known starts] at detached
      have full := Piece.detaches_star detached period
      rw [mayBeEmpty_of_sweeps following] at full
      exact Bool.false_ne_true full.symm

theorem sweeps_concat_list {quantifier : Quantifier} {alternatives : List (List Piece)}
    (ih : ∀ i, start ≤ i → i ≤ stop →
      (subject.Sweeps holds (rest ++ [last]) i stop false ↔
        subject.EndsWith holds rest last extent i stop)) :
    subject.Sweeps holds (.list quantifier alternatives :: rest ++ [last]) start stop false ↔
      subject.EndsWith holds (.list quantifier alternatives :: rest) last extent start stop := by
  have ends : Piece.endsInGlobstar (.list quantifier alternatives :: rest) =
      Piece.endsInGlobstar rest := Piece.endsInGlobstar_cons (by simp)
  have step : (∃ i, start ≤ i ∧ i ≤ stop ∧
      subject.TakesList holds alternatives quantifier start i ∧
        subject.Sweeps holds (rest ++ [last]) i stop false) ↔
        ∃ i, start ≤ i ∧ i ≤ stop ∧ subject.TakesList holds alternatives quantifier start i ∧
          subject.EndsWith holds rest last extent i stop := by
    apply exists_within_congr
    intro i low bound
    rw [ih i low bound]
  rw [List.cons_append, sweeps_list, step, exists_endsWith, EndsWith, ends, sweeps_list]
  apply or_congr_left
  apply and_congr_right
  intro _
  apply and_congr_right
  intro final
  rw [List.dropLast_cons_of_ne_nil (Piece.ne_nil_of_endsInGlobstar final), sweeps_list]

theorem sweeps_concat_globstar_only (takesLast : last.extent? = some extent)
    (detached : Piece.detaches subject.options placement last atStart [.globstar] = true)
    (known : subject.atSegmentStart start = true → atStart = true) :
    subject.Sweeps holds [.globstar, last] start stop false ↔
      subject.EndsWith holds [.globstar] last extent start stop := by
  have unstarted : ¬(startsWithSeparator [last] = true ∧ subject.atSegmentStart start = true) := by
    intro ⟨separates, starts⟩
    apply Piece.detaches_globstar detached
    exact ⟨eq_separator_of_startsWithSeparator separates, known starts⟩
  rw [sweeps_globstar]
  constructor
  · intro given
    rcases given with none | ⟨separates, starts, _⟩ | ⟨i, low, _, swept⟩
    · cases none
    · exact absurd ⟨separates, starts⟩ unstarted
    · obtain ⟨rfl, stands⟩ := (sweeps_single takesLast).mp swept
      refine .inr ⟨by omega, ?_, sweeps_globstar.mpr (.inl rfl)⟩
      rw [Nat.add_sub_cancel]
      exact stands
  · intro given
    rcases given with ⟨_, final, _⟩ | ⟨fits, stands, _⟩
    · cases final
    · exact .inr (.inr ⟨stop - extent, by omega, by omega,
        (sweeps_single takesLast).mpr ⟨by omega, stands⟩⟩)

/-- After `**/**` both sides begin anywhere, so only the last piece counts. -/
theorem sweeps_concat_globstar_twice (takesLast : last.extent? = some extent)
    (ih : ∀ i, start ≤ i → i ≤ stop →
      (subject.Sweeps holds [.separator, .globstar, last] i stop false ↔
        subject.EndsWith holds [.separator, .globstar] last extent i stop)) :
    subject.Sweeps holds [.globstar, .separator, .globstar, last] start stop false ↔
      subject.EndsWith holds [.globstar, .separator, .globstar] last extent start stop := by
  constructor
  · intro swept
    rcases sweeps_globstar.mp swept with none | ⟨_, starts, swept⟩ | ⟨i, low, bound, swept⟩
    · cases none
    · rcases sweeps_globstar.mp swept with none | ⟨separates, _, _⟩ | ⟨i, low, _, single⟩
      · cases none
      · obtain rfl := eq_separator_of_startsWithSeparator separates
        exact .inl ⟨rfl, rfl, swept⟩
      · obtain ⟨rfl, stands⟩ := (sweeps_single takesLast).mp single
        refine .inr ⟨by omega, ?_, ?_⟩
        · rw [Nat.add_sub_cancel]
          exact stands
        · exact sweeps_globstar.mpr (.inr (.inl ⟨rfl, starts, sweeps_globstar.mpr (.inl rfl)⟩))
    · rcases (ih i low bound).mp swept with ⟨closes, _, swept⟩ | ⟨fits, stands, swept⟩
      · exact .inl ⟨closes, rfl, sweeps_globstar.mpr (.inr (.inr ⟨i, low, bound, swept⟩))⟩
      · exact .inr ⟨by omega, stands,
          sweeps_globstar.mpr (.inr (.inr ⟨i, low, by omega, swept⟩))⟩
  · intro given
    rcases given with ⟨rfl, _, swept⟩ | ⟨fits, stands, swept⟩
    · rcases sweeps_globstar.mp swept with none | ⟨_, starts, _⟩ | ⟨i, low, bound, closes⟩
      · cases none
      · exact sweeps_globstar.mpr (.inr (.inl ⟨rfl, starts, swept⟩))
      · exact sweeps_globstar.mpr (.inr (.inr ⟨i, low, bound,
          (ih i low bound).mpr (.inl ⟨rfl, rfl, closes⟩)⟩))
    · have single : subject.Sweeps holds [last] (stop - extent) stop false :=
        (sweeps_single takesLast).mpr ⟨Nat.sub_add_cancel (by omega), stands⟩
      rcases sweeps_globstar.mp swept with none | ⟨_, starts, _⟩ | ⟨i, low, bound, trails⟩
      · cases none
      · exact sweeps_globstar.mpr (.inr (.inl ⟨rfl, starts, sweeps_globstar.mpr
          (.inr (.inr ⟨stop - extent, by omega, Nat.sub_le stop extent, single⟩))⟩))
      · exact sweeps_globstar.mpr (.inr (.inr ⟨i, low, by omega,
          (ih i low (by omega)).mpr (.inr ⟨by omega, stands, trails⟩)⟩))

theorem sweeps_concat_globstar (nonempty : rest ≠ [])
    (ih : ∀ i, start ≤ i → i ≤ stop →
      (subject.Sweeps holds (rest ++ [last]) i stop false ↔
        subject.EndsWith holds rest last extent i stop))
    (longer : rest ≠ [.separator, .globstar])
    (ihTail : startsWithSeparator rest = true →
      (subject.Sweeps holds (rest.tail ++ [last]) start stop false ↔
        subject.EndsWith holds rest.tail last extent start stop)) :
    subject.Sweeps holds (.globstar :: rest ++ [last]) start stop false ↔
      subject.EndsWith holds (.globstar :: rest) last extent start stop := by
  have ends : Piece.endsInGlobstar (.globstar :: rest) = Piece.endsInGlobstar rest :=
    Piece.endsInGlobstar_cons (by simp)
  have endsTail : Piece.endsInGlobstar rest.tail = Piece.endsInGlobstar rest := by
    cases rest with
    | nil => exact absurd rfl nonempty
    | cons next rest =>
        refine (Piece.endsInGlobstar_cons ?_).symm
        intro given
        rcases given with ⟨rfl, rfl⟩
        exact longer rfl
  have dropped (final : Piece.endsInGlobstar rest = true) :
      subject.Sweeps holds (.globstar :: rest).dropLast start stop false ↔
        startsWithSeparator rest = true ∧ subject.atSegmentStart start = true ∧
            subject.Sweeps holds rest.tail.dropLast start stop false ∨
          ∃ i, start ≤ i ∧ i ≤ stop ∧ subject.Sweeps holds rest.dropLast i stop false := by
    have short : rest.dropLast ≠ [] := by
      obtain ⟨before, rfl⟩ := Piece.endsInGlobstar_iff.mp final
      rw [List.dropLast_append_of_ne_nil (by simp)]
      simp
    rw [List.dropLast_cons_of_ne_nil nonempty, sweeps_globstar,
      startsWithSeparator_dropLast final, List.tail_dropLast]
    simp only [short, false_or]
  have free : rest ++ [last] ≠ [] := by simp
  rw [List.cons_append, sweeps_globstar, startsWithSeparator_concat nonempty,
    List.tail_append_of_ne_nil nonempty]
  constructor
  · intro given
    rcases given with none | ⟨separates, starts, swept⟩ | ⟨i, low, bound, swept⟩
    · exact absurd none free
    · rcases (ihTail separates).mp swept with ⟨closes, final, swept⟩ | ⟨fits, stands, swept⟩
      · rw [endsTail] at final
        exact .inl ⟨closes, ends ▸ final,
          (dropped final).mpr (.inl ⟨separates, starts, swept⟩)⟩
      · exact .inr ⟨fits, stands, sweeps_globstar.mpr (.inr (.inl ⟨separates, starts, swept⟩))⟩
    · rcases (ih i low bound).mp swept with ⟨closes, final, swept⟩ | ⟨fits, stands, swept⟩
      · exact .inl ⟨closes, ends ▸ final, (dropped final).mpr (.inr ⟨i, low, bound, swept⟩)⟩
      · exact .inr ⟨by omega, stands,
          sweeps_globstar.mpr (.inr (.inr ⟨i, low, by omega, swept⟩))⟩
  · intro given
    rcases given with ⟨closes, final, swept⟩ | ⟨fits, stands, swept⟩
    · rw [ends] at final
      rcases (dropped final).mp swept with ⟨separates, starts, swept⟩ | ⟨i, low, bound, swept⟩
      · exact .inr (.inl ⟨separates, starts,
          (ihTail separates).mpr (.inl ⟨closes, endsTail ▸ final, swept⟩)⟩)
      · exact .inr (.inr ⟨i, low, bound, (ih i low bound).mpr (.inl ⟨closes, final, swept⟩)⟩)
    · rcases sweeps_globstar.mp swept with none | ⟨separates, starts, swept⟩ |
        ⟨i, low, bound, swept⟩
      · exact absurd none nonempty
      · exact .inr (.inl ⟨separates, starts, (ihTail separates).mpr (.inr ⟨fits, stands, swept⟩)⟩)
      · exact .inr (.inr ⟨i, low, by omega,
          (ih i low (by omega)).mpr (.inr ⟨by omega, stands, swept⟩)⟩)

/-- A sweep ends with its last piece, if that may be taken off. -/
theorem sweeps_concat_iff (placed : subject.Placed placement stop)
    (takesLast : last.extent? = some extent)
    (detached : Piece.detaches subject.options placement last atStart pieces = true)
    (known : subject.atSegmentStart start = true → atStart = true) (inside : start ≤ stop) :
    subject.Sweeps holds (pieces ++ [last]) start stop false ↔
      subject.EndsWith holds pieces last extent start stop := by
  induction pieces using Piece.sequence_induction generalizing atStart start with
  | nil =>
      simp only [List.nil_append, EndsWith, sweeps_single takesLast, Piece.endsInGlobstar,
        sweeps_nil, Bool.false_eq_true, false_and, and_false, or_false, false_or]
      constructor
      · intro given
        rcases given with ⟨rfl, stands⟩
        rw [Nat.add_sub_cancel]
        exact ⟨Nat.le_refl _, stands, rfl⟩
      · intro given
        rcases given with ⟨fits, stands, rfl⟩
        exact ⟨by omega, stands⟩
  | trailing =>
      rcases Piece.detaches_trailing detached with ⟨needs, elsewhere⟩ | ⟨free, rfl⟩
      · exact sweeps_concat_trailing_needs placed needs elsewhere takesLast
      · cases takesLast
        exact sweeps_concat_trailing free
  | inner next rest ih ihGlobstar =>
      have later := Piece.detaches_tail detached (by simp) (by simp)
      have latest := Piece.detaches_tail later (by simp) (by simp)
      apply sweeps_concat_inner _ _ inside
      · intro i bound
        exact ih latest (fun _ => rfl) bound
      · intro i bound
        exact ihGlobstar later (fun _ => rfl) bound
  | fixed piece rest length takes apart ih =>
      have later := Piece.detaches_tail detached
        (by rintro ⟨rfl, rfl⟩; exact apart ⟨rfl, [], rfl⟩)
        (by rintro ⟨rfl, _⟩; cases takes)
      apply sweeps_concat_fixed takes apart takesLast
      intro fits stands
      exact ih later (leavesStart_of_standsAt takes stands known) fits
  | star rest ih =>
      have later := Piece.detaches_tail detached (by simp) (by simp)
      apply sweeps_concat_star placed takesLast detached known
      intro i low bound clear
      exact ih later (fun starts => known (atSegmentStart_of_unbroken low clear starts)) bound
  | globstar rest ih ihTail =>
      by_cases only : rest = []
      · subst only
        exact sweeps_concat_globstar_only takesLast detached known
      · have later := Piece.detaches_tail detached (by simp) (by simp [only])
        have every : ∀ i, start ≤ i → i ≤ stop →
            (subject.Sweeps holds (rest ++ [last]) i stop false ↔
              subject.EndsWith holds rest last extent i stop) :=
          fun i _ bound => ih later (fun _ => rfl) bound
        -- After `**/**` both sides begin anywhere, so nothing has to be known of its second `**`.
        by_cases twice : rest = [.separator, .globstar]
        · subst twice
          exact sweeps_concat_globstar_twice takesLast every
        · apply sweeps_concat_globstar only every twice
          intro separates
          cases rest with
          | nil => exact absurd rfl only
          | cons next rest =>
              have latest := Piece.detaches_tail later
                (by rintro ⟨rfl, rfl⟩; exact twice rfl)
                (by rintro ⟨rfl, _⟩; cases separates)
              cases next with
              | separator => exact ihTail latest (fun _ => rfl) inside
              | _ => cases separates
  | list quantifier alternatives rest ih =>
      have later := Piece.detaches_tail detached (by simp) (by simp)
      apply sweeps_concat_list
      intro i _ bound
      exact ih later (fun _ => rfl) bound

end

end Subject

end Glob
