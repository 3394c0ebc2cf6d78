import Glob.Proofs.Cut

/-!
The matcher against a sweep. Where the end of the window is open, or the last piece has no fixed
extent, it takes nothing off the end; elsewhere it takes off what `endsDetach` allows to take off.
-/

namespace Glob

namespace Piece

variable {options : Options} {placement : Placement} {piece last : Piece}
  {rest before pieces : List Piece} {atStart leading : Bool} {extent : Nat}

theorem fixedLast?_tail (kept : fixedLast? (piece :: rest) leading = none) :
    fixedLast? rest leading = none := by
  cases rest with
  | nil => cases leading <;> rfl
  | cons next rest => simpa [fixedLast?, List.getLast?_cons_cons] using kept

theorem fixedLast?_open (open_ : piece.extent? = none) (kept : fixedLast? rest leading = none) :
    fixedLast? (piece :: rest) leading = none := by
  cases rest with
  | nil => cases leading <;> simp [fixedLast?, open_]
  | cons next rest => simpa [fixedLast?, List.getLast?_cons_cons] using kept

theorem fixedLast?_some (found : fixedLast? rest leading = some (last, extent)) :
    leading = false ∧ last.extent? = some extent ∧ rest = rest.dropLast ++ [last] := by
  unfold fixedLast? at found
  split at found
  · cases found
  · rename_i closed
    obtain ⟨final, ends, taken⟩ := Option.bind_eq_some_iff.mp found
    obtain ⟨length, takes, same⟩ := Option.map_eq_some_iff.mp taken
    cases same
    have nonempty : rest ≠ [] := by
      intro same
      subst same
      cases ends
    rw [List.getLast?_eq_some_getLast nonempty] at ends
    cases ends
    exact ⟨by simpa using closed, takes, (List.dropLast_concat_getLast nonempty).symm⟩

theorem ne_nil_of_fixedLast? (found : fixedLast? rest leading = some (last, extent)) :
    rest ≠ [] := by
  rintro rfl
  cases (fixedLast?_some found).2.2

theorem fixedLast?_concat (before : List Piece) (takes : last.extent? = some extent) :
    fixedLast? (before ++ [last]) false = some (last, extent) := by
  simp [fixedLast?, takes]

/-- Induction on the pieces that are taken off the end. A separator may be taken off together with a
`**` before it. -/
@[elab_as_elim]
theorem cut_induction {motive : List Piece → Prop} (leading : Bool)
    (kept : ∀ pieces, fixedLast? pieces leading = none → motive pieces)
    (cut : ∀ before last extent, leading = false → last.extent? = some extent → motive before →
      motive before.dropLast → motive (before ++ [last]))
    (pieces : List Piece) : motive pieces := by
  induction size : pieces.length using Nat.strongRecOn generalizing pieces with
  | _ size ih =>
      subst size
      cases found : fixedLast? pieces leading with
      | none => exact kept pieces found
      | some final =>
          obtain ⟨last, extent⟩ := final
          obtain ⟨closed, takes, ends⟩ := fixedLast?_some found
          have shorter := congrArg List.length ends
          rw [List.length_append, List.length_singleton] at shorter
          rw [ends]
          apply cut _ last extent closed takes
          · exact ih _ (by omega) _ rfl
          · exact ih _ (by rw [List.length_dropLast]; omega) _ rfl

theorem endsDetach_fixed (takes : piece.extent? = some extent) (apart : ¬OpensGlobstar piece rest) :
    endsDetach options placement atStart (piece :: rest) =
      endsDetach options placement (piece.leavesStart options atStart) rest := by
  rw [endsDetach.eq_def]
  split
  case h_1 same => cases same
  case h_2 same =>
    cases same
    exact absurd ⟨rfl, [], rfl⟩ apart
  case h_3 same =>
    cases same
    cases takes
  case h_4 more _ same =>
    cases same
    exact absurd ⟨rfl, more, rfl⟩ apart
  case h_5 same =>
    cases same
    simp only [takes]

theorem endsDetach_inner {next : Piece} :
    endsDetach options placement atStart (.separator :: .globstar :: next :: rest) = true ↔
      (Subject.startsWithSeparator (next :: rest) = true →
          endsDetach options placement true (next :: rest) = true) ∧
        endsDetach options placement true (.globstar :: next :: rest) = true := by
  rw [endsDetach.eq_def]
  simp only [Bool.and_eq_true, Bool.or_eq_true, Bool.not_eq_true']
  cases Subject.startsWithSeparator (next :: rest) <;> simp

theorem endsDetach_cut (open_ : piece.extent? = none) (takes : last.extent? = some extent)
    (longer : ¬(piece = .globstar ∧ before = [] ∧ last = .separator)) :
    endsDetach options placement atStart (piece :: before ++ [last]) = true ↔
      detaches options placement last atStart (piece :: before) = true ∧
        endsDetach options placement atStart (piece :: before) = true ∧
          (last = .separator → endsInGlobstar (piece :: before) = true →
            endsDetach options placement atStart (piece :: before).dropLast = true) := by
  have single : ¬(piece = .globstar ∧ before ++ [last] = [.separator]) := by
    intro both
    cases before with
    | nil => exact longer ⟨both.1, rfl, by simpa using both.2⟩
    | cons next before => simp at both
  rw [List.cons_append, endsDetach_open open_ single, fixedLast?_concat before takes]
  simp only
  rw [List.dropLast_concat, ← isSeparator_iff]
  cases last.isSeparator <;> cases endsInGlobstar (piece :: before) <;> simp [and_assoc]

end Piece

namespace Subject

variable {subject : Subject} {placement : Placement} {piece last : Piece}
  {rest before pieces : List Piece} {start stop extent : Nat} {atStart leading : Bool}

theorem accepts_iff_sweeps_of_kept (kept : Piece.fixedLast? pieces leading = none)
    (inside : start ≤ stop) :
    subject.accepts pieces start stop leading = true ↔
      subject.Sweeps subject.acceptsWindow pieces start stop leading := by
  induction pieces using Piece.sequence_induction generalizing start with
  | nil => rw [accepts_nil, sweeps_nil]
  | trailing => rw [accepts_trailing, sweeps_trailing]
  | inner next rest ih ihGlobstar =>
      have keptGlobstar := Piece.fixedLast?_tail kept
      have keptNext := Piece.fixedLast?_tail keptGlobstar
      rw [accepts_inner, sweeps_inner, ih keptNext inside]
      apply or_congr_right
      apply and_congr_right
      intro shorter
      rw [ihGlobstar keptGlobstar shorter]
  | fixed piece rest extent takes apart ih =>
      rw [accepts_fixed takes apart, sweeps_fixed takes apart]
      apply and_congr_right
      intro fits
      rw [ih (Piece.fixedLast?_tail kept) fits]
  | star rest ih =>
      have keptRest := Piece.fixedLast?_tail kept
      rw [accepts_star keptRest inside, sweeps_star]
      apply and_congr_right
      intro _
      apply exists_within_congr
      intro middle _ bound
      rw [ih keptRest bound]
  | globstar rest ih ihTail =>
      have keptRest := Piece.fixedLast?_tail kept
      have keptTail : Piece.fixedLast? rest.tail leading = none := by
        cases rest with
        | nil => exact keptRest
        | cons next rest => exact Piece.fixedLast?_tail keptRest
      rw [accepts_globstar keptRest, sweeps_globstar, ihTail keptTail inside]
      apply or_congr_right
      apply or_congr_right
      apply exists_within_congr
      intro middle _ bound
      rw [ih keptRest bound]
  | list quantifier alternatives rest ih =>
      have keptRest := Piece.fixedLast?_tail kept
      rw [accepts_list keptRest inside, sweeps_list]
      apply exists_within_congr
      intro middle _ bound
      rw [ih keptRest bound]

theorem accepts_leading_iff (inside : start ≤ stop) :
    subject.accepts pieces start stop true = true ↔
      subject.Sweeps subject.acceptsWindow pieces start stop true := by
  apply accepts_iff_sweeps_of_kept _ inside
  rfl

theorem exists_of_endsInZeroDirectories {pieces : List Piece}
    (ends : subject.endsInZeroDirectories pieces start = true) :
    ∃ before, pieces = before ++ [.globstar, .separator] := by
  unfold endsInZeroDirectories at ends
  split at ends
  · rename_i reversed
    exact ⟨[], List.reverse_eq_iff.mp reversed⟩
  · rename_i more reversed
    refine ⟨(.separator :: more).reverse, ?_⟩
    rw [List.reverse_eq_iff.mp reversed]
    simp
  · cases ends

theorem mem_globstar_of_endsInZeroDirectories
    (ends : subject.endsInZeroDirectories pieces start = true) : .globstar ∈ pieces := by
  obtain ⟨before, rfl⟩ := exists_of_endsInZeroDirectories ends
  simp

theorem endsInZeroDirectories_iff (longer : ¬(before = [.globstar] ∧ last = .separator)) :
    subject.endsInZeroDirectories (before ++ [last]) start = true ↔
      last = .separator ∧ Piece.endsInGlobstar before = true := by
  rw [Piece.endsInGlobstar_iff, endsInZeroDirectories]
  simp only [List.reverse_append, List.reverse_singleton, List.singleton_append]
  split
  · rename_i same
    have ⟨closes, reversed⟩ := List.cons.inj same
    have only := congrArg List.reverse reversed
    rw [List.reverse_reverse] at only
    exact absurd ⟨only, closes⟩ longer
  · rename_i more same
    have ⟨closes, reversed⟩ := List.cons.inj same
    have ends := congrArg List.reverse reversed
    simp only [List.reverse_reverse, List.reverse_cons, List.append_assoc,
      List.singleton_append] at ends
    simp only [true_iff]
    exact ⟨closes, more.reverse, ends⟩
  · rename_i _ other
    simp only [Bool.false_eq_true, false_iff]
    intro both
    obtain ⟨closes, more, ends⟩ := both
    apply other more.reverse
    simp [closes, ends]

/-- What begins with a wildcard or a list gives up its last piece: as the end of a `/**/` that
matches no directories, or at the end of the window. -/
theorem accepts_open_concat (open_ : piece.extent? = none) (takes : last.extent? = some extent)
    (longer : ¬(piece :: before = [.globstar] ∧ last = .separator)) :
    subject.accepts (piece :: before ++ [last]) start stop false = true ↔
      (last = .separator ∧ Piece.endsInGlobstar (piece :: before) = true ∧
          subject.accepts (piece :: before).dropLast start stop false = true) ∨
        start + extent ≤ stop ∧ subject.standsAt (stop - extent) last = true ∧
          subject.accepts (piece :: before) start (stop - extent) false = true := by
  have cut : subject.accepts (piece :: (before ++ [last])) start stop false = true ↔ _ :=
    accepts_cut open_ (Piece.fixedLast?_concat before takes)
  rw [List.dropLast_concat, ← List.cons_append, endsInZeroDirectories_iff longer, and_assoc] at cut
  exact cut

theorem accepts_globstar_separator :
    subject.accepts [.globstar, .separator] start stop false = true ↔
      subject.atSegmentStart start = true ∧ start = stop ∨
        start < stop ∧ subject.isSeparatorAt (stop - 1) = true := by
  have cut : subject.accepts [.globstar, .separator] start stop false = true ↔ _ :=
    accepts_cut rfl (Piece.fixedLast?_concat [] (rfl : Piece.separator.extent? = some 1))
  rw [cut]
  have kept : Piece.fixedLast? [] false = none := rfl
  have zero : subject.endsInZeroDirectories [.globstar, .separator] start =
      subject.atSegmentStart start := rfl
  simp only [List.dropLast_singleton, accepts_nil, accepts_globstar kept, zero, standsAt,
    Nat.add_one_le_iff, Bool.false_eq_true, false_and, or_false, true_or, and_true]

theorem accepts_concat_iff_sweeps (placed : subject.Placed placement stop)
    (open_ : piece.extent? = none) (takes : last.extent? = some extent)
    (detach : Piece.endsDetach subject.options placement atStart (piece :: before ++ [last]) = true)
    (known : subject.atSegmentStart start = true → atStart = true) (inside : start ≤ stop)
    (ih : ∀ last ≤ stop, start ≤ last →
      Piece.endsDetach subject.options placement atStart (piece :: before) = true →
        (subject.accepts (piece :: before) start last false = true ↔
          subject.Sweeps subject.acceptsWindow (piece :: before) start last false))
    (ihCloser :
      Piece.endsDetach subject.options placement atStart (piece :: before).dropLast = true →
      (subject.accepts (piece :: before).dropLast start stop false = true ↔
        subject.Sweeps subject.acceptsWindow (piece :: before).dropLast start stop false)) :
    subject.accepts (piece :: before ++ [last]) start stop false = true ↔
      subject.Sweeps subject.acceptsWindow (piece :: before ++ [last]) start stop false := by
  by_cases only : piece = .globstar ∧ before = [] ∧ last = .separator
  · obtain ⟨rfl, rfl, rfl⟩ := only
    exact accepts_globstar_separator.trans sweeps_globstar_separator.symm
  · have ⟨detached, detachBefore, detachCloser⟩ := (Piece.endsDetach_cut open_ takes only).mp detach
    have longer : ¬(piece :: before = [.globstar] ∧ last = .separator) := by
      intro both
      exact only ⟨(List.cons.inj both.1).1, (List.cons.inj both.1).2, both.2⟩
    rw [accepts_open_concat open_ takes longer,
      sweeps_concat_iff placed takes detached known inside, EndsWith]
    apply or_congr
    · apply and_congr_right
      intro closes
      apply and_congr_right
      intro ends
      exact ihCloser (detachCloser closes ends)
    · apply and_congr_right
      intro fits
      apply and_congr_right
      intro _
      exact ih (stop - extent) (Nat.sub_le stop extent) (by omega) detachBefore

theorem accepts_iff_sweeps (placed : subject.Placed placement stop)
    (detach : Piece.endsDetach subject.options placement atStart pieces = true)
    (known : subject.atSegmentStart start = true → atStart = true) (inside : start ≤ stop) :
    subject.accepts pieces start stop false = true ↔
      subject.Sweeps subject.acceptsWindow pieces start stop false := by
  -- Pieces go off both ends, so the induction is on how many there are.
  induction size : pieces.length using Nat.strongRecOn
    generalizing pieces atStart start stop with
  | _ size ih =>
      subst size
      have shorter : ∀ part : List Piece, part.length < pieces.length → ∀ {atStart start last},
          last ≤ stop → Piece.endsDetach subject.options placement atStart part = true →
          (subject.atSegmentStart start = true → atStart = true) → start ≤ last →
          (subject.accepts part start last false = true ↔
            subject.Sweeps subject.acceptsWindow part start last false) :=
        fun part less _ _ _ below detach known inside =>
          ih part.length less (placed.mono below) detach known inside rfl
      cases pieces using Piece.step_cases false with
      | nil => rw [accepts_nil, sweeps_nil]
      | trailing => rw [accepts_trailing, sweeps_trailing]
      | inner next rest =>
          have ⟨detachNext, detachGlobstar⟩ := Piece.endsDetach_inner.mp detach
          rw [accepts_inner, sweeps_inner]
          apply or_congr
          · apply and_congr_right
            intro separates
            exact shorter _ (by simp) (Nat.le_refl stop) (detachNext separates) (fun _ => rfl)
              inside
          · apply and_congr_right
            intro fits
            apply and_congr_right
            intro _
            exact shorter _ (by simp) (Nat.le_refl stop) detachGlobstar (fun _ => rfl) fits
      | fixed piece rest extent takes apart =>
          rw [Piece.endsDetach_fixed takes apart] at detach
          rw [accepts_fixed takes apart, sweeps_fixed takes apart]
          apply and_congr_right
          intro fits
          apply and_congr_right
          intro stands
          have known := leavesStart_of_standsAt takes stands known
          exact shorter rest (by simp) (Nat.le_refl stop) detach known fits
      | cut piece rest last extent open_ found =>
          obtain ⟨_, takes, ends⟩ := Piece.fixedLast?_some found
          have lengths := congrArg List.length ends
          rw [List.length_append, List.length_singleton] at lengths
          rw [ends, ← List.cons_append] at detach ⊢
          apply accepts_concat_iff_sweeps placed open_ takes detach known inside
          · intro final below inside detach
            refine shorter _ ?_ below detach known inside
            simp only [List.length_cons]
            omega
          · intro detach
            refine shorter _ ?_ (Nat.le_refl stop) detach known inside
            simp only [List.length_dropLast, List.length_cons] at lengths ⊢
            omega
      | star rest kept => exact accepts_iff_sweeps_of_kept (Piece.fixedLast?_open rfl kept) inside
      | globstar rest kept =>
          exact accepts_iff_sweeps_of_kept (Piece.fixedLast?_open rfl kept) inside
      | list quantifier alternatives rest kept =>
          exact accepts_iff_sweeps_of_kept (Piece.fixedLast?_open rfl kept) inside

theorem accepts_concat {piece last : Piece} {before : List Piece} {extent : Nat}
    (open_ : piece.extent? = none) (takes : last.extent? = some extent)
    (longer : ¬(last = .separator ∧
      (piece :: before = [.globstar] ∨ Piece.endsInGlobstar (piece :: before) = true))) :
    subject.accepts (piece :: before ++ [last]) start stop false = true ↔
      start + extent ≤ stop ∧ subject.standsAt (stop - extent) last = true ∧
        subject.accepts (piece :: before) start (stop - extent) false = true := by
  have single : ¬(piece :: before = [.globstar] ∧ last = .separator) :=
    fun both => longer ⟨both.2, .inl both.1⟩
  rw [accepts_open_concat open_ takes single]
  constructor
  · intro either
    rcases either with ⟨closes, ends, _⟩ | kept
    · exact absurd ⟨closes, .inr ends⟩ longer
    · exact kept
  · exact .inr

/-- Once the literal is taken off, the period that a `*` must not match is out of its sight. -/
theorem accepts_star_literal {text : List Char} (stands : subject.literalAt text start = true) :
    subject.accepts [.star, .literal text] start (start + text.length) false = true := by
  have cut : subject.accepts (.star :: [] ++ [.literal text]) start (start + text.length)
      false = true ↔ _ :=
    accepts_concat rfl (rfl : (Piece.literal text).extent? = some text.length) (by simp)
  apply cut.mpr
  rw [Nat.add_sub_cancel]
  exact ⟨Nat.le_refl _, stands, accepts_star_empty rfl (accepts_nil.mpr (.inl rfl))⟩

end Subject

end Glob
