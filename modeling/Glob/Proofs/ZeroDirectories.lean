import Glob.Proofs.TwoEnded

/-! A `/**/` may match no directories: it stands for a single separator wherever that matches. -/

namespace Glob

namespace Piece

variable {piece : Piece} {leading : Bool}

theorem endsInGlobstar_append_separator (before after : List Piece) :
    endsInGlobstar (before ++ .separator :: after) = endsInGlobstar (.separator :: after) := by
  induction before with
  | nil => rfl
  | cons piece before ih =>
      have longer : ¬(piece = .separator ∧ before ++ .separator :: after = [.globstar]) := by
        cases before <;> simp
      exact (endsInGlobstar_cons longer).trans ih

theorem not_opensGlobstar_append_separator {before after : List Piece}
    (apart : ¬OpensGlobstar piece before) :
    ¬OpensGlobstar piece (before ++ .separator :: after) :=
  not_opensGlobstar_append apart (ne_globstar_cons rfl)

theorem fixedLast?_zero_directories (before after : List Piece) :
    fixedLast? (before ++ .separator :: .globstar :: .separator :: after) leading =
      fixedLast? (before ++ .separator :: after) leading := by
  have same : (before ++ .separator :: .globstar :: .separator :: after).getLast? =
      (before ++ .separator :: after).getLast? := by
    simp [List.getLast?_append, List.getLast?_cons_cons]
  simp only [fixedLast?, same]

end Piece

namespace Subject

variable {subject : Subject} {piece last : Piece} {before after : List Piece}
  {start stop extent : Nat} {leading : Bool}

theorem startsWithSeparator_append_separator (before after other : List Piece) :
    startsWithSeparator (before ++ .separator :: after) =
      startsWithSeparator (before ++ .separator :: other) := by
  cases before with
  | nil => rfl
  | cons piece before => cases piece <;> rfl

/-- What stands before a separator does not matter for how the end after it is taken off. -/
theorem accepts_after_separator_concat (open_ : piece.extent? = none)
    (takes : last.extent? = some extent) :
    subject.accepts (piece :: before ++ .separator :: (after ++ [last])) start stop false = true ↔
      (last = .separator ∧ Piece.endsInGlobstar (.separator :: after) = true ∧
          subject.accepts (piece :: before ++ .separator :: after.dropLast) start stop false =
            true) ∨
        start + extent ≤ stop ∧ subject.standsAt (stop - extent) last = true ∧
          subject.accepts (piece :: before ++ .separator :: after) start (stop - extent) false =
            true := by
  have longer : ¬(piece :: (before ++ .separator :: after) = [.globstar] ∧ last = .separator) := by
    simp
  have cut : subject.accepts (piece :: (before ++ .separator :: after) ++ [last]) start stop
      false = true ↔ _ :=
    accepts_open_concat open_ takes longer
  have ends := Piece.endsInGlobstar_append_separator (piece :: before) after
  rw [List.cons_append] at ends
  rw [ends, List.cons_append, List.append_assoc] at cut
  refine cut.trans (or_congr_left (and_congr_right fun _ => and_congr_right fun final => ?_))
  have nonempty : after ≠ [] := by
    rintro rfl
    cases final
  rw [← List.cons_append, List.dropLast_append_of_ne_nil (List.cons_ne_nil _ _),
    List.dropLast_cons_of_ne_nil nonempty]

/-- Where pieces are taken off the end, they are until the `/**/` comes last; then its own end is
taken off as that of no directories. -/
theorem accepts_zero_directories_of_cut (open_ : piece.extent? = none)
    (found : Piece.fixedLast? (before ++ .separator :: after) leading = some (last, extent))
    (inside : start ≤ stop)
    (shorter : ∀ less : List Piece, less.length < after.length → ∀ stop, start ≤ stop →
      subject.accepts (piece :: before ++ .separator :: less) start stop false = true →
      subject.accepts (piece :: before ++ .separator :: .globstar :: .separator :: less) start stop
        false = true)
    (accepted : subject.accepts (piece :: before ++ .separator :: after) start stop leading =
      true) :
    subject.accepts (piece :: before ++ .separator :: .globstar :: .separator :: after) start stop
      leading = true := by
  obtain ⟨rfl, takes, ends⟩ := Piece.fixedLast?_some found
  rcases List.eq_nil_or_concat after with rfl | ⟨less, final, rfl⟩
  · have cut : subject.accepts (piece :: before ++ .separator :: ([.globstar] ++ [.separator]))
        start stop false = true ↔ _ :=
      accepts_after_separator_concat open_ rfl
    exact cut.mpr (.inl ⟨rfl, rfl, accepted⟩)
  · rw [List.concat_eq_append] at *
    rw [← List.cons_append, ← List.append_assoc] at ends
    obtain rfl := List.singleton_inj.mp (List.append_inj' ends rfl).2
    have joined (more : List Piece) :
        piece :: before ++ .separator :: .globstar :: .separator :: more =
          piece :: (before ++ [.separator, .globstar]) ++ .separator :: more := by
      simp
    simp only [joined] at shorter ⊢
    have fewer : less.length < (less ++ [final]).length := by
      simp
    rcases (accepts_after_separator_concat open_ takes).mp accepted with
      ⟨closes, trails, held⟩ | ⟨fits, stands, held⟩
    · have fewest : less.dropLast.length ≤ less.length := by
        simp
      have held := shorter less.dropLast (by omega) stop inside held
      exact (accepts_after_separator_concat open_ takes).mpr (.inl ⟨closes, trails, held⟩)
    · have held := shorter less fewer (stop - extent) (by omega) held
      exact (accepts_after_separator_concat open_ takes).mpr (.inr ⟨fits, stands, held⟩)

theorem accepts_inner_zero_directories (inside : start ≤ stop)
    (later : ∀ i ≤ stop, subject.accepts (before ++ .separator :: after) i stop leading = true →
      subject.accepts (before ++ .separator :: .globstar :: .separator :: after) i stop leading =
        true)
    (laterGlobstar : ∀ i ≤ stop,
      subject.accepts (.globstar :: before ++ .separator :: after) i stop leading = true →
      subject.accepts (.globstar :: before ++ .separator :: .globstar :: .separator :: after) i stop
        leading = true)
    (accepted : subject.accepts (.separator :: .globstar :: before ++ .separator :: after) start
      stop leading = true) :
    subject.accepts (.separator :: .globstar :: before ++
      .separator :: .globstar :: .separator :: after) start stop leading = true := by
  have inner (more : List Piece) :
      subject.accepts (.separator :: .globstar :: (before ++ .separator :: more)) start stop
          leading = true ↔
        startsWithSeparator (before ++ .separator :: more) = true ∧
            subject.accepts (before ++ .separator :: more) start stop leading = true ∨
          start < stop ∧ subject.isSeparatorAt start = true ∧
            subject.accepts (.globstar :: (before ++ .separator :: more)) (start + 1) stop
              leading = true :=
    accepts_inner_of_ne_nil (by simp)
  apply (inner (.globstar :: .separator :: after)).mpr
  rcases (inner after).mp accepted with ⟨starts, held⟩ | ⟨fits, separates, held⟩
  · exact .inl ⟨(startsWithSeparator_append_separator before _ after).trans starts,
      later start inside held⟩
  · exact .inr ⟨fits, separates, laterGlobstar (start + 1) fits held⟩

theorem accepts_globstar_zero_directories
    (found : Piece.fixedLast? (before ++ .separator :: after) leading = none)
    (inside : start ≤ stop)
    (shorter : ∀ less : List Piece, less.length ≤ before.length → ∀ i ≤ stop,
      subject.accepts (less ++ .separator :: after) i stop leading = true →
      subject.accepts (less ++ .separator :: .globstar :: .separator :: after) i stop leading =
        true)
    (accepted : subject.accepts (.globstar :: before ++ .separator :: after) start stop leading =
      true) :
    subject.accepts (.globstar :: before ++ .separator :: .globstar :: .separator :: after) start
      stop leading = true := by
  have kept := (Piece.fixedLast?_zero_directories before after).trans found
  apply (accepts_globstar kept).mpr
  rcases (accepts_globstar found).mp accepted with
    none | ⟨starts, begins, held⟩ | ⟨last, low, bound, held⟩
  · simp at none
  · have starts := (startsWithSeparator_append_separator before
      (.globstar :: .separator :: after) after).trans starts
    refine .inr (.inl ⟨starts, begins, ?_⟩)
    cases before with
    | nil =>
        -- The separator that matched nothing is the one that comes after the new `**`.
        exact (accepts_globstar found).mpr (.inr (.inl ⟨rfl, begins, held⟩))
    | cons next before => exact shorter before (Nat.le_succ _) start inside held
  · exact .inr (.inr ⟨last, low, bound, shorter before (Nat.le_refl _) last bound held⟩)

/-- Whatever a separator matches between two sequences, a `/**/` in its place matches too. -/
theorem accepts_zero_directories (subject : Subject) (before after : List Piece)
    (start stop : Nat) (leading : Bool) (inside : start ≤ stop)
    (accepted : subject.accepts (before ++ .separator :: after) start stop leading = true) :
    subject.accepts (before ++ .separator :: .globstar :: .separator :: after) start stop leading =
      true := by
  -- A piece goes off the front of `before` or the end of `after`; the induction is on both.
  induction size : before.length + after.length using Nat.strongRecOn
    generalizing before after start stop leading with
  | _ size ih =>
      subst size
      cases before with
      | nil => exact accepts_inner.mpr (.inl ⟨rfl, accepted⟩)
      | cons piece rest =>
          have later (less : List Piece) (fewer : less.length ≤ rest.length) (i : Nat)
              (bound : i ≤ stop)
              (held : subject.accepts (less ++ .separator :: after) i stop leading = true) :
              subject.accepts (less ++ .separator :: .globstar :: .separator :: after) i stop
                leading = true :=
            ih _ (by rw [List.length_cons]; omega) less after i stop leading bound held rfl
          by_cases opens : Piece.OpensGlobstar piece rest
          · obtain ⟨rfl, more, rfl⟩ := opens
            exact accepts_inner_zero_directories inside (later more (Nat.le_succ _))
              (later (.globstar :: more) (Nat.le_refl _)) accepted
          cases extent : piece.extent? with
          | some length =>
              have apart (more : List Piece) :
                  ¬Piece.OpensGlobstar piece (rest ++ .separator :: more) :=
                Piece.not_opensGlobstar_append_separator opens
              obtain ⟨fits, stands, held⟩ := (accepts_fixed extent (apart after)).mp accepted
              exact (accepts_fixed extent (apart _)).mpr
                ⟨fits, stands, later rest (Nat.le_refl _) _ fits held⟩
          | none =>
              cases found : Piece.fixedLast? (rest ++ .separator :: after) leading with
              | some last =>
                  apply accepts_zero_directories_of_cut extent found inside _ accepted
                  intro less fewer stop inside held
                  exact ih _ (by omega) (piece :: rest) less start stop false inside held rfl
              | none =>
                  have kept := (Piece.fixedLast?_zero_directories rest after).trans found
                  have last := later rest (Nat.le_refl _)
                  cases piece with
                  | star =>
                      obtain ⟨visible, i, low, bound, clear, held⟩ :=
                        (accepts_star found inside).mp accepted
                      exact (accepts_star kept inside).mpr
                        ⟨visible, i, low, bound, clear, last i bound held⟩
                  | list quantifier alternatives =>
                      obtain ⟨i, low, bound, takes, held⟩ := (accepts_list found inside).mp accepted
                      exact (accepts_list kept inside).mpr
                        ⟨i, low, bound, takes, last i bound held⟩
                  | globstar => exact accepts_globstar_zero_directories found inside later accepted
                  | separator | literal | anyChar | bracket => cases extent

theorem accepts_zero_directories_twice :
    let subject : Subject := ⟨#['a', '/'], {}⟩
    let before : List Piece := [.list .exactlyOne [[.globstar], [.literal ['a']]]]
    0 ≤ 2 ∧
      subject.accepts (before ++ [.separator, .globstar, .separator]) 0 2 false = true ∧
      subject.accepts (before ++ [.separator, .globstar, .separator, .globstar, .separator]) 0 2
        false = true :=
  have single : Subject.accepts ⟨#['a', '/'], {}⟩
      ([.list .exactlyOne [[.globstar], [.literal ['a']]]] ++ [.separator, .globstar, .separator])
      0 2 false = true := by
    decide +kernel
  ⟨Nat.zero_le 2, single,
    accepts_zero_directories _ _ [.globstar, .separator] 0 2 false (Nat.zero_le 2) single⟩

end Subject

end Glob
