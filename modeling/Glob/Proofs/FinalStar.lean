import Glob.Proofs.LastPiece
import Glob.Proofs.Leading
import Glob.Proofs.ListLaws
import Glob.Proofs.ZeroDirectories

/-!
A `*` behind a sequence. It may match nothing, so it only widens what the sequence matches, except
where the sequence relies on its end being taken off: behind the `*` nothing is, so the pieces are
swept to the end of the text with all the rules about what comes after them.
-/

namespace Glob

namespace Piece

variable {options : Options} {piece last : Piece} {rest before pieces : List Piece}
  {atStart : Bool} {extent : Nat}

theorem starsKeepOff_of_notMem (absent : .star ∉ pieces) :
    starsKeepOff options atStart pieces = true := by
  induction pieces generalizing atStart with
  | nil => rfl
  | cons piece rest ih =>
      obtain ⟨other, later⟩ := not_or.mp (mt List.mem_cons.mpr absent)
      cases piece with
      | star => exact absurd rfl other
      | separator | literal | anyChar | bracket | globstar | list => exact ih later

theorem open_of_cons (open_ : (piece :: rest).getLast? ≠ some last) :
    rest.getLast? ≠ some last := by
  intro same
  rcases rest with _ | ⟨next, rest⟩
  · cases same
  · exact open_ (by rw [List.getLast?_cons_cons, same])

theorem endsInGlobstar_of_open (open_ : pieces.getLast? ≠ some .globstar) :
    endsInGlobstar pieces = false :=
  Bool.eq_false_iff.mpr fun ends => open_ (getLast?_of_endsInGlobstar ends)

theorem endsInGlobstar_concat_of_extent (takes : last.extent? = some extent) :
    endsInGlobstar (before ++ [last]) = false := by
  apply endsInGlobstar_of_open
  rw [List.getLast?_concat]
  rintro ⟨⟩
  cases takes

theorem fixedLast?_dropLast_of_endsInGlobstar (ends : endsInGlobstar before = true) :
    fixedLast? before.dropLast false ≠ none := by
  obtain ⟨front, rfl⟩ := endsInGlobstar_iff.mp ends
  have fewer : (front ++ [separator, globstar]).dropLast = front ++ [separator] := by
    simp
  rw [fewer, fixedLast?_concat front rfl]
  exact Option.some_ne_none _

theorem mayBeEmpty_of_concat_globstar (open_ : pieces.getLast? ≠ some .separator)
    (empty : mayBeEmpty options (pieces ++ [.globstar]) = true) :
    mayBeEmpty options pieces = true := by
  induction pieces using sequence_induction with
  | nil => rfl
  | trailing => cases empty
  | inner next rest ih _ =>
      cases next with
      | separator =>
          rw [mayBeEmpty]
          exact ih open_ empty
      | literal | anyChar | bracket | star | globstar | list => cases empty
  | fixed piece rest extent takes apart ih =>
      cases piece with
      | separator =>
          rcases rest with _ | ⟨next, rest⟩
          · exact absurd rfl open_
          · cases next with
            | globstar => exact absurd ⟨rfl, rest, rfl⟩ apart
            | separator | literal | anyChar | bracket | star | list => cases empty
      | literal text =>
          rcases text with _ | ⟨c, text⟩
          · rw [mayBeEmpty]
            exact ih (open_of_cons open_) empty
          · cases empty
      | anyChar | bracket => cases empty
      | star | globstar | list => cases takes
  | star rest ih =>
      rw [mayBeEmpty]
      exact ih (open_of_cons open_) empty
  | globstar rest ih ihTail =>
      rcases rest with _ | ⟨next, rest⟩
      · rfl
      · cases next with
        | separator =>
            rw [mayBeEmpty, Bool.or_eq_true]
            rw [List.cons_append, List.cons_append, mayBeEmpty, Bool.or_eq_true] at empty
            exact empty.imp (ih (open_of_cons open_)) (ihTail (open_of_cons (open_of_cons open_)))
        | literal | anyChar | bracket | star | globstar | list =>
            exact ih (open_of_cons open_) empty
  | list quantifier alternatives rest ih =>
      rw [mayBeEmpty, Bool.and_eq_true]
      rw [List.cons_append, mayBeEmpty, Bool.and_eq_true] at empty
      exact empty.imp_right (ih (open_of_cons open_))

theorem starsKeepOff_concat_globstar (final : pieces.getLast? = some .globstar)
    (kept : starsKeepOff options atStart pieces = true) :
    starsKeepOff options atStart (pieces ++ [.globstar]) = true := by
  induction pieces generalizing atStart with
  | nil => cases final
  | cons piece rest ih =>
      rcases rest with _ | ⟨next, rest⟩
      · cases final
        rfl
      · have finalRest : (next :: rest).getLast? = some .globstar := final
        have later := ih finalRest (starsKeepOff_tail kept)
        cases piece with
        | star =>
            change starsKeepOff options atStart (next :: rest ++ [.globstar]) = true at later
            rw [List.cons_append, starsKeepOff, later, Bool.and_true]
            rw [starsKeepOff, Bool.and_eq_true] at kept
            have open_ : (next :: rest).getLast? ≠ some .separator := by simp [finalRest]
            cases empty : mayBeEmpty options (next :: rest ++ [.globstar]) with
            | true =>
                rw [mayBeEmpty_of_concat_globstar open_ empty] at kept
                exact kept.1
            | false => simp
        | separator | literal | anyChar | bracket | globstar | list => exact later

end Piece

namespace Subject

variable {subject : Subject} {holds : List Piece → Nat → Nat → Bool} {piece last : Piece}
  {pieces rest before after other more : List Piece} {start middle stop extent : Nat}
  {atStart leading : Bool}

theorem startsWithSeparator_append (starts : startsWithSeparator pieces = true) :
    startsWithSeparator (pieces ++ more) = true := by
  obtain ⟨_, rfl⟩ := exists_of_startsWithSeparator starts
  rfl

/-- What a sweep over the pieces up to some place sees of what comes next: only a `*` sees a hidden
period there, and only a final `/**` the pieces that follow. -/
structure Joins (subject : Subject) (pieces more : List Piece) (atStart : Bool)
    (middle stop : Nat) : Prop where
  keepsOff : middle < stop → subject.isHiddenPeriod middle = true →
    Piece.starsKeepOff subject.options atStart pieces = true
  separates : subject.options.trailingGlobstarNeedsComponent = true ∨
    Piece.endsInGlobstar pieces = false ∨ startsWithSeparator more = true

theorem Joins.tail (joins : subject.Joins (piece :: rest) more atStart middle stop) :
    subject.Joins rest more (piece.leavesStart subject.options atStart) middle stop where
  keepsOff shorter hidden := Piece.starsKeepOff_tail (joins.keepsOff shorter hidden)
  separates := joins.separates.imp_right (Or.imp_left Piece.endsInGlobstar_tail)

theorem sweeps_trailing_append (nonempty : more ≠ [])
    (joins : subject.Joins [.separator, .globstar] more atStart middle stop)
    (bound : middle ≤ stop)
    (trails : subject.acceptsTrailingGlobstar start middle = true)
    (later : subject.Sweeps holds more middle stop leading) :
    subject.Sweeps holds (.separator :: .globstar :: more) start stop leading := by
  obtain ⟨next, after, rfl⟩ := List.exists_cons_of_ne_nil nonempty
  have onward (separates : subject.isSeparatorAt start = true) (shorter : start < middle) :
      subject.Sweeps holds (.separator :: .globstar :: next :: after) start stop leading :=
    sweeps_inner.mpr (.inr ⟨by omega, separates,
      sweeps_globstar.mpr (.inr (.inr ⟨middle, shorter, bound, later⟩))⟩)
  cases needs : subject.options.trailingGlobstarNeedsComponent with
  | true =>
      obtain ⟨longer, separates⟩ := (acceptsTrailingGlobstar_needs needs).mp trails
      exact onward separates (by omega)
  | false =>
      rcases (acceptsTrailingGlobstar_free needs).mp trails with rfl | ⟨shorter, separates⟩
      · rcases joins.separates with own | open_ | starts
        · exact absurd (own.symm.trans needs) (by simp)
        · cases open_
        · exact sweeps_inner.mpr (.inl ⟨starts, later⟩)
      · exact onward separates shorter

theorem sweeps_append (nonempty : more ≠ []) (apart : ∀ after, more ≠ .globstar :: after)
    (joins : subject.Joins pieces more atStart middle stop)
    (known : subject.atSegmentStart start = true → atStart = true)
    (low : start ≤ middle) (bound : middle ≤ stop)
    (swept : subject.Sweeps holds pieces start middle false)
    (later : subject.Sweeps holds more middle stop leading) :
    subject.Sweeps holds (pieces ++ more) start stop leading := by
  induction pieces using Piece.sequence_induction generalizing atStart start with
  | nil =>
      have same : start = middle := by simpa using sweeps_nil.mp swept
      rw [same]
      exact later
  | trailing =>
      exact sweeps_trailing_append nonempty joins bound (sweeps_trailing.mp swept) later
  | inner next rest ih ihGlobstar =>
      rcases sweeps_inner.mp swept with ⟨starts, swept⟩ | ⟨shorter, separates, swept⟩
      · exact sweeps_inner.mpr (.inl ⟨startsWithSeparator_append starts,
          ih joins.tail.tail (fun _ => rfl) low swept⟩)
      · exact sweeps_inner.mpr (.inr ⟨by omega, separates,
          ihGlobstar joins.tail (fun _ => rfl) shorter swept⟩)
  | fixed piece rest extent takes opens ih =>
      obtain ⟨fits, stands, swept⟩ := (sweeps_fixed takes opens).mp swept
      have known := leavesStart_of_standsAt takes stands known
      exact (sweeps_fixed takes (Piece.not_opensGlobstar_append opens apart)).mpr
        ⟨by omega, stands, ih joins.tail known fits swept⟩
  | star rest ih =>
      obtain ⟨visible, i, first, final, clear, taken⟩ := sweeps_star.mp swept
      refine sweeps_star.mpr ⟨?_, i, first, Nat.le_trans final bound, clear, ?_⟩
      · -- The window was empty for the `*`, which is why it did not see the period.
        intro ⟨shorter, hidden⟩
        have here : start = middle := by
          by_contra before
          exact visible ⟨by omega, hidden⟩
        obtain rfl : i = start := by omega
        have ⟨_, _, starts⟩ := isHiddenPeriod_iff.mp hidden
        rw [here] at shorter hidden
        have kept := joins.keepsOff shorter hidden
        rw [known starts] at kept
        rw [← here] at taken
        have full := Piece.mayBeEmpty_of_starsKeepOff kept
        rw [mayBeEmpty_of_sweeps taken] at full
        cases full
      · exact ih joins.tail (fun starts => known (atSegmentStart_of_unbroken first clear starts))
          final taken
  | globstar rest ih ihTail =>
      rcases sweeps_globstar.mp swept with rfl | ⟨starts, begins, swept⟩ |
        ⟨i, first, final, swept⟩
      · exact sweeps_globstar.mpr (.inr (.inr ⟨middle, low, bound, later⟩))
      · refine sweeps_globstar.mpr (.inr (.inl ⟨startsWithSeparator_append starts, begins, ?_⟩))
        obtain ⟨_, rfl⟩ := exists_of_startsWithSeparator starts
        exact ihTail joins.tail.tail (fun _ => rfl) low swept
      · exact sweeps_globstar.mpr (.inr (.inr ⟨i, first, Nat.le_trans final bound,
          ih joins.tail (fun _ => rfl) final swept⟩))
  | list quantifier alternatives rest ih =>
      obtain ⟨i, first, final, taken, swept⟩ := sweeps_list.mp swept
      exact sweeps_list.mpr ⟨i, first, Nat.le_trans final bound, taken,
        ih joins.tail (fun _ => rfl) final swept⟩

theorem sweeps_separator_mono
    (here : ∀ i ≤ stop, subject.Sweeps holds (.separator :: after) i stop leading →
      subject.Sweeps holds (.separator :: other) i stop leading)
    (behind : ∀ i ≤ stop, subject.atSegmentStart i = true →
      subject.Sweeps holds after i stop leading → subject.Sweeps holds other i stop leading)
    (inside : start ≤ stop)
    (swept : subject.Sweeps holds (before ++ .separator :: after) start stop leading) :
    subject.Sweeps holds (before ++ .separator :: other) start stop leading := by
  have opened (i : Nat) (bound : i ≤ stop)
      (swept : subject.Sweeps holds (.globstar :: .separator :: after) i stop leading) :
      subject.Sweeps holds (.globstar :: .separator :: other) i stop leading := by
    rcases sweeps_globstar.mp swept with none | ⟨starts, begins, swept⟩ | ⟨j, first, final, swept⟩
    · cases none
    · exact sweeps_globstar.mpr (.inr (.inl ⟨starts, begins, behind i bound begins swept⟩))
    · exact sweeps_globstar.mpr (.inr (.inr ⟨j, first, final, here j final swept⟩))
  induction before using Piece.sequence_induction generalizing start with
  | nil => exact here start inside swept
  | trailing =>
      rcases sweeps_inner.mp swept with ⟨starts, swept⟩ | ⟨shorter, separates, swept⟩
      · exact sweeps_inner.mpr (.inl ⟨rfl, here start inside swept⟩)
      · exact sweeps_inner.mpr (.inr ⟨shorter, separates, opened (start + 1) shorter swept⟩)
  | inner next rest ih ihGlobstar =>
      rcases sweeps_inner.mp swept with ⟨starts, swept⟩ | ⟨shorter, separates, swept⟩
      · have same := startsWithSeparator_append_separator (next :: rest) other after
        exact sweeps_inner.mpr (.inl ⟨same.trans starts, ih inside swept⟩)
      · exact sweeps_inner.mpr (.inr ⟨shorter, separates, ihGlobstar shorter swept⟩)
  | fixed piece rest extent takes apart ih =>
      have apartAll (more : List Piece) : ¬Piece.OpensGlobstar piece (rest ++ .separator :: more) :=
        Piece.not_opensGlobstar_append_separator apart
      obtain ⟨fits, stands, swept⟩ := (sweeps_fixed takes (apartAll after)).mp swept
      exact (sweeps_fixed takes (apartAll other)).mpr ⟨fits, stands, ih fits swept⟩
  | star rest ih =>
      obtain ⟨visible, i, first, final, clear, swept⟩ := sweeps_star.mp swept
      exact sweeps_star.mpr ⟨visible, i, first, final, clear, ih final swept⟩
  | globstar rest ih ihTail =>
      rcases rest with _ | ⟨next, rest⟩
      · exact opened start inside swept
      rcases sweeps_globstar.mp swept with none | ⟨starts, begins, swept⟩ |
        ⟨i, first, final, swept⟩
      · cases none
      · have same := startsWithSeparator_append_separator (next :: rest) other after
        exact sweeps_globstar.mpr (.inr (.inl ⟨same.trans starts, begins, ihTail inside swept⟩))
      · exact sweeps_globstar.mpr (.inr (.inr ⟨i, first, final, ih final swept⟩))
  | list quantifier alternatives rest ih =>
      obtain ⟨i, first, final, taken, swept⟩ := sweeps_list.mp swept
      exact sweeps_list.mpr ⟨i, first, final, taken, ih final swept⟩

/-- Whether the last piece is taken off at a hidden period that a `*` could see behind itself. -/
def bringsPeriod (subject : Subject) (cut : Cut) : Bool :=
  cut.extent ≤ cut.stop && subject.standsAt (cut.stop - cut.extent) cut.last &&
    subject.isHiddenPeriod (cut.stop - cut.extent) &&
      !Piece.starsKeepOff subject.options true cut.before

/-- Whether a `/**` that needs no component comes last once the last piece is taken off, and what
comes before matches only if it takes nothing. -/
def sparesSeparator (subject : Subject) (start : Nat) (cut : Cut) : Bool :=
  !subject.options.trailingGlobstarNeedsComponent && Piece.endsInGlobstar cut.before &&
    !cut.last.isSeparator && cut.extent ≤ cut.stop &&
      subject.standsAt (cut.stop - cut.extent) cut.last &&
        !subject.accepts (cut.before ++ [.globstar]) start (cut.stop - cut.extent) false

theorem sweeps_append_of_separated {front : List Piece}
    (takes : last.extent? = some extent) (other : last ≠ .separator)
    (far : middle < stop → subject.isHiddenPeriod middle = true →
      Piece.starsKeepOff subject.options true (front ++ [.separator, .globstar]) = true)
    (inside : start ≤ middle) (bound : middle ≤ stop)
    (accepted : subject.accepts (front ++ [.separator, .globstar] ++ [.globstar]) start middle
      false = true)
    (later : subject.Sweeps subject.acceptsWindow (last :: more) middle stop false) :
    subject.Sweeps subject.acceptsWindow (front ++ [.separator, .globstar] ++ last :: more) start
      stop false := by
  have kept : Piece.fixedLast? (front ++ [.separator, .globstar] ++ [.globstar]) false = none := by
    simp [Piece.fixedLast?, Piece.extent?]
  have open_ : Piece.endsInGlobstar (front ++ [.separator, .globstar] ++ [.globstar]) = false := by
    apply Bool.eq_false_iff.mpr
    intro ends
    obtain ⟨less, split⟩ := Piece.endsInGlobstar_iff.mp ends
    have same : (front ++ [.separator]) ++ [.globstar, .globstar] =
        less ++ [.separator, .globstar] := by
      simpa using split
    cases (List.append_inj' same rfl).2
  have alone : ¬startsWithSeparator (last :: more) = true :=
    mt eq_separator_of_startsWithSeparator other
  have swept := (accepts_iff_sweeps_of_kept kept inside).mp accepted
  have twice : subject.Sweeps subject.acceptsWindow
      (front ++ [.separator, .globstar] ++ [.globstar] ++ last :: more) start stop false :=
    sweeps_append (List.cons_ne_nil _ _) (Piece.ne_globstar_cons takes)
      ⟨fun shorter hidden => Piece.starsKeepOff_concat_globstar (by simp) (far shorter hidden),
        .inr (.inl open_)⟩
      (fun _ => rfl) inside bound swept later
  -- The `**` that was added makes no difference behind the one that is there.
  have once (i : Nat) (swept : subject.Sweeps subject.acceptsWindow
      (.globstar :: .globstar :: last :: more) i stop false) :
      subject.Sweeps subject.acceptsWindow (.globstar :: last :: more) i stop false := by
    rcases sweeps_globstar.mp swept with none | ⟨starts, _⟩ | ⟨j, first, final, swept⟩
    · cases none
    · cases starts
    rcases sweeps_globstar.mp swept with none | ⟨starts, _⟩ | ⟨k, second, final, swept⟩
    · cases none
    · exact absurd starts alone
    · exact sweeps_globstar.mpr (.inr (.inr ⟨k, Nat.le_trans first second, final, swept⟩))
  rw [List.append_assoc, List.append_assoc] at twice
  rw [List.append_assoc]
  refine sweeps_separator_mono ?_ (fun i _ _ => once i) (Nat.le_trans inside bound) twice
  intro i _ swept
  rcases sweeps_inner.mp swept with ⟨starts, _⟩ | ⟨shorter, separates, swept⟩
  · cases starts
  · exact sweeps_inner.mpr (.inr ⟨shorter, separates, once (i + 1) swept⟩)

theorem sweeps_append_of_cut (takes : last.extent? = some extent) (fits : start + extent ≤ middle)
    (bound : middle ≤ stop)
    (own : subject.bringsPeriod ⟨before, last, extent, middle⟩ = false ∧
      subject.sparesSeparator start ⟨before, last, extent, middle⟩ = false)
    (stands : subject.standsAt (middle - extent) last = true)
    (onward : subject.Sweeps subject.acceptsWindow (last :: more) (middle - extent) stop false)
    (ih : subject.Joins before (last :: more) true (middle - extent) stop →
      subject.Sweeps subject.acceptsWindow (before ++ last :: more) start stop false) :
    subject.Sweeps subject.acceptsWindow (before ++ last :: more) start stop false := by
  have within : extent ≤ middle := by omega
  have far (hidden : subject.isHiddenPeriod (middle - extent) = true) :
      Piece.starsKeepOff subject.options true before = true := by
    simpa [bringsPeriod, within, stands, hidden] using own.1
  cases needs : subject.options.trailingGlobstarNeedsComponent with
  | true => exact ih ⟨fun _ => far, .inl needs⟩
  | false =>
      cases ends : Piece.endsInGlobstar before with
      | false => exact ih ⟨fun _ => far, .inr (.inl ends)⟩
      | true =>
          by_cases closes : last = .separator
          · subst closes
            exact ih ⟨fun _ => far, .inr (.inr rfl)⟩
          · have other := mt Piece.isSeparator_iff.mp closes
            have separated : subject.accepts (before ++ [.globstar]) start (middle - extent) false =
                true := by
              simpa [sparesSeparator, within, stands, needs, ends, other] using own.2
            obtain ⟨front, rfl⟩ := Piece.endsInGlobstar_iff.mp ends
            exact sweeps_append_of_separated takes closes (fun _ => far) (by omega) (by omega)
              separated onward

theorem sweeps_append_of_zero_directories (ends : Piece.endsInGlobstar before = true)
    (inside : start ≤ stop)
    (swept : subject.Sweeps holds (before.dropLast ++ more) start stop leading) :
    subject.Sweeps holds (before ++ [.separator] ++ more) start stop leading := by
  obtain ⟨front, rfl⟩ := Piece.endsInGlobstar_iff.mp ends
  have single : front ++ .separator :: more =
      (front ++ [Piece.separator, .globstar]).dropLast ++ more := by
    simp
  have several : front ++ .separator :: .globstar :: .separator :: more =
      front ++ [.separator, .globstar] ++ [.separator] ++ more := by
    simp
  rw [← single] at swept
  rw [← several]
  exact sweeps_separator_mono
    (fun _ _ swept => sweeps_inner.mpr (.inl ⟨rfl, swept⟩))
    (fun _ _ begins swept => sweeps_globstar.mpr (.inr (.inl ⟨rfl, begins, swept⟩))) inside swept

theorem sweeps_append_of_accepts (nonempty : more ≠ []) (apart : ∀ after, more ≠ .globstar :: after)
    (inside : start ≤ middle) (bound : middle ≤ stop)
    (kept : ∀ cut ∈ subject.cuts pieces middle,
      subject.bringsPeriod cut = false ∧ subject.sparesSeparator start cut = false)
    (joins : Piece.fixedLast? pieces false = none → subject.Joins pieces more true middle stop)
    (accepted : subject.accepts pieces start middle false = true)
    (later : subject.Sweeps subject.acceptsWindow more middle stop false) :
    subject.Sweeps subject.acceptsWindow (pieces ++ more) start stop false := by
  induction pieces using Piece.cut_induction false generalizing middle more with
  | kept pieces found =>
      have swept := (accepts_iff_sweeps_of_kept found inside).mp accepted
      exact sweeps_append nonempty apart (joins found) (fun _ => rfl) inside bound swept later
  | cut before last extent _ takes ih ihCloser =>
      obtain ⟨own, next, closer⟩ := (forall_cuts_concat takes).mp kept
      rcases splitsLast takes inside accepted with
        (⟨rfl, ends, held⟩ | ⟨fits, stands, held⟩) | ⟨swept, meets⟩
      · have takenOff := Piece.fixedLast?_dropLast_of_endsInGlobstar ends
        apply sweeps_append_of_zero_directories ends (Nat.le_trans inside bound)
        exact ihCloser nonempty apart inside bound (closer rfl ends)
          (fun none => absurd none takenOff) held later
      · have onward : subject.Sweeps subject.acceptsWindow (last :: more) (middle - extent) stop
            false := by
          apply (sweeps_fixed takes fun opens => opens.2.elim apart).mpr
          rw [Nat.sub_add_cancel (by omega)]
          exact ⟨bound, stands, later⟩
        rw [List.append_assoc]
        apply sweeps_append_of_cut takes fits bound own stands onward
        intro joins
        exact ih (List.cons_ne_nil _ _) (Piece.ne_globstar_cons takes) (by omega) (by omega)
          (next (by omega) stands) (fun _ => joins) held onward
      · have absent : .star ∉ before ++ [last] := by
          have other : Piece.star ≠ last := by
            rintro rfl
            cases takes
          simp [star_notMem_of_meetsGlobstar meets, other]
        have joins : subject.Joins (before ++ [last]) more true middle stop :=
          ⟨fun _ _ => Piece.starsKeepOff_of_notMem absent,
            .inr (.inl (Piece.endsInGlobstar_concat_of_extent takes))⟩
        exact sweeps_append nonempty apart joins (fun _ => rfl) inside bound swept later

/-- Whether a `*` behind the pieces may match nothing: no last piece that is taken off changes what
comes before it, and with an open end no hidden period separates. -/
def admitsStar (subject : Subject) (pieces : List Piece) (start stop : Nat)
    (leading : Bool) : Bool :=
  if leading then !(subject.placement stop).atHiddenPeriod .separator
  else (subject.cuts pieces stop).all fun cut =>
    !subject.bringsPeriod cut && !subject.sparesSeparator start cut

theorem accepts_star_of_cuts (open_ : pieces.getLast? ≠ some .globstar) (inside : start ≤ stop)
    (kept : ∀ cut ∈ subject.cuts pieces stop,
      subject.bringsPeriod cut = false ∧ subject.sparesSeparator start cut = false)
    (accepted : subject.accepts pieces start stop false = true) :
    subject.accepts (pieces ++ [.star]) start stop false = true := by
  have takesNothing : subject.Sweeps subject.acceptsWindow [.star] stop stop false :=
    sweeps_star.mpr ⟨fun both => Nat.lt_irrefl stop both.1, stop, Nat.le_refl stop,
      Nat.le_refl stop, unbroken_self stop, sweeps_nil.mpr (.inl rfl)⟩
  have ends : Piece.fixedLast? (pieces ++ [.star]) false = none := by
    simp [Piece.fixedLast?, Piece.extent?]
  apply (accepts_iff_sweeps_of_kept ends inside).mpr
  have joins : subject.Joins pieces [.star] true stop stop :=
    ⟨fun shorter => absurd shorter (Nat.lt_irrefl stop),
      .inr (.inl (Piece.endsInGlobstar_of_open open_))⟩
  exact sweeps_append_of_accepts (by simp) (by simp) inside (Nat.le_refl stop) kept
    (fun _ => joins) accepted takesNothing

theorem accepts_star_leading (open_ : pieces.getLast? ≠ some .globstar) (inside : start ≤ stop)
    (whole : (subject.placement stop).atHiddenPeriod .separator = false)
    (accepted : subject.accepts pieces start stop true = true) :
    subject.accepts (pieces ++ [.star]) start stop true = true := by
  have placed := placed_placement subject stop
  have sees : Piece.seesSeparators subject.options (subject.placement stop) true pieces = true := by
    rw [Piece.seesSeparators, whole]
    rfl
  have swept := (accepts_leading_iff inside).mp accepted
  obtain ⟨last, low, bound, ends, swept⟩ := (openEnded placed sees (fun _ => rfl) inside).mp swept
  have visible (shorter : last < stop) : subject.isHiddenPeriod last = false := by
    apply Bool.eq_false_iff.mpr
    intro hidden
    rcases ends with same | separates
    · omega
    · have separator := placed.period last shorter .separator 1 rfl Nat.one_pos shorter hidden
        separates
      rw [whole] at separator
      cases separator
  have takesNothing : subject.Sweeps subject.acceptsWindow [.star] last stop true := by
    refine sweeps_star.mpr ⟨?_, last, Nat.le_refl last, bound, unbroken_self last,
      sweeps_nil.mpr (ends.imp_right fun separates => ⟨rfl, separates⟩)⟩
    rintro ⟨shorter, hidden⟩
    rw [visible shorter] at hidden
    cases hidden
  apply (accepts_leading_iff inside).mpr
  refine sweeps_append (by simp) (by simp) ⟨?_, ?_⟩ (fun _ => rfl) low bound swept takesNothing
  · intro shorter hidden
    rw [visible shorter] at hidden
    cases hidden
  · exact .inr (.inl (Piece.endsInGlobstar_of_open open_))

theorem accepts_final_star (open_ : pieces.getLast? ≠ some .globstar) (inside : start ≤ stop)
    (admits : subject.admitsStar pieces start stop leading = true)
    (accepted : subject.accepts pieces start stop leading = true) :
    subject.accepts (pieces ++ [.star]) start stop leading = true := by
  cases leading with
  | true =>
      apply accepts_star_leading open_ inside _ accepted
      simpa [admitsStar] using admits
  | false =>
      apply accepts_star_of_cuts open_ inside _ accepted
      simpa [admitsStar] using admits

/-- Without the last piece a `*` before it does not see the hidden period. -/
theorem final_star_shows_period {text : List Char}
    (hidden : subject.isHiddenPeriod start = true) (stands : subject.literalAt text start = true)
    (some_ : 0 < text.length) :
    subject.accepts [.star, .literal text] start (start + text.length) false = true ∧
      subject.accepts [.star, .literal text, .star] start (start + text.length) false = false := by
  refine ⟨accepts_star_literal stands, ?_⟩
  apply Bool.eq_false_iff.mpr
  intro accepted
  have visible := ((accepts_star rfl (Nat.le_add_right start text.length)).mp accepted).1
  exact visible ⟨by omega, hidden⟩

/-- Without the last piece the `/**` comes last, where it may match nothing. -/
theorem final_star_requires_separator
    (free : subject.options.trailingGlobstarNeedsComponent = false)
    (takes : last.extent? = some extent) (other : last ≠ .separator)
    (stands : subject.standsAt start last = true)
    (clear : subject.Unbroken start (start + extent)) :
    subject.accepts [.star, .separator, .globstar, last] start (start + extent) false = true ∧
      subject.accepts [.star, .separator, .globstar, last, .star] start (start + extent) false =
        false := by
  constructor
  · have cut : subject.accepts (.star :: [.separator, .globstar] ++ [last]) start (start + extent)
        false = true ↔ _ :=
      accepts_concat rfl takes (fun both => other both.1)
    apply cut.mpr
    rw [Nat.add_sub_cancel]
    exact ⟨Nat.le_refl _, stands, accepts_star_empty rfl
      (accepts_trailing.mpr ((acceptsTrailingGlobstar_free free).mpr (.inl rfl)))⟩
  · apply Bool.eq_false_iff.mpr
    intro accepted
    obtain ⟨_, i, low, _, _, held⟩ :=
      (accepts_star rfl (Nat.le_add_right start extent)).mp accepted
    rcases accepts_inner.mp held with ⟨starts, _⟩ | ⟨shorter, separates, _⟩
    · exact other (eq_separator_of_startsWithSeparator starts)
    · rw [clear i low shorter] at separates
      cases separates

/-- With an open end a match ends at a hidden period that separates, but not before a `*`. -/
theorem final_star_hides_separator (hidden : subject.isHiddenPeriod start = true)
    (separates : subject.isSeparatorAt start = true) :
    subject.accepts [] start (start + 1) true = true ∧
      subject.accepts [.star] start (start + 1) true = false :=
  ⟨accepts_nil.mpr (.inr ⟨rfl, separates⟩), (leading_misses_separator hidden separates).2.2⟩

end Subject

namespace Pattern

variable {options : Options} {pieces : List Piece} {text : String}

/-- A `*` behind a sequence that does not end in `**` only widens what it matches, but where the
match relies on a last piece being taken off: before a hidden period, or before a `/**` that then
matches nothing. -/
theorem accepts_append_star (open_ : pieces.getLast? ≠ some .globstar)
    (admits : ∀ stop, options.MayReadTo text.toList stop →
      (Subject.mk text.toList.toArray options).accepts pieces 0 stop options.leadingDirectories =
        true →
      (Subject.mk text.toList.toArray options).admitsStar pieces 0 stop
        options.leadingDirectories = true)
    (accepted : (ofSequence options pieces).accepts text = true) :
    (ofSequence options (pieces ++ [.star])).accepts text = true := by
  obtain ⟨stop, reads, held⟩ := accepts_ofSequence_iff.mp accepted
  apply accepts_ofSequence_iff.mpr
  exact ⟨stop, reads,
    Subject.accepts_final_star open_ (Nat.zero_le stop) (admits stop reads held) held⟩

theorem accepts_append_star_hidden_period :
    let pieces : List Piece := [.star, .separator, .globstar, .literal ['.', 'c']]
    pieces.getLast? ≠ some .globstar ∧
      (∀ stop, ({} : Options).MayReadTo "x/y/.c".toList stop →
        (Subject.mk "x/y/.c".toList.toArray {}).admitsStar pieces 0 stop false = true) ∧
      (ofSequence {} pieces).accepts "x/y/.c" = true ∧
      (ofSequence {} (pieces ++ [.star])).accepts "x/y/.c" = true :=
  have open_ : [Piece.star, .separator, .globstar, .literal ['.', 'c']].getLast? ≠
      some .globstar := by
    simp
  have admits : ∀ stop, ({} : Options).MayReadTo "x/y/.c".toList stop →
      (Subject.mk "x/y/.c".toList.toArray {}).admitsStar
        [.star, .separator, .globstar, .literal ['.', 'c']] 0 stop false = true := by
    intro stop reads
    obtain rfl := Options.eq_length_of_mayReadTo (by decide) reads
    decide +kernel
  have accepted : (ofSequence {} [.star, .separator, .globstar, .literal ['.', 'c']]).accepts
      "x/y/.c" = true := by
    decide +kernel
  ⟨open_, admits, accepted,
    accepts_append_star open_ (fun stop reads _ => admits stop reads) accepted⟩

end Pattern

end Glob
