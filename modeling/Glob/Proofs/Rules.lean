import Glob.Proofs.Sweep

/-! The steps of the matcher, one for each way in which a sequence can begin. -/

namespace Glob

/-- The steps of the matcher: what begins with a wildcard or a list gives up its last piece first,
if that is a fixed one. -/
@[elab_as_elim]
theorem Piece.step_cases {motive : List Piece → Prop} (leading : Bool) (nil : motive [])
    (trailing : motive [.separator, .globstar])
    (inner : ∀ next rest, motive (.separator :: .globstar :: next :: rest))
    (fixed : ∀ piece rest extent, piece.extent? = some extent → ¬OpensGlobstar piece rest →
      motive (piece :: rest))
    (cut : ∀ piece rest last extent, piece.extent? = none →
      fixedLast? rest leading = some (last, extent) → motive (piece :: rest))
    (star : ∀ rest, fixedLast? rest leading = none → motive (.star :: rest))
    (globstar : ∀ rest, fixedLast? rest leading = none → motive (.globstar :: rest))
    (list : ∀ quantifier alternatives rest, fixedLast? rest leading = none →
      motive (.list quantifier alternatives :: rest)) (pieces : List Piece) : motive pieces := by
  cases pieces using sequence_cases with
  | nil => exact nil
  | trailing => exact trailing
  | inner next rest => exact inner next rest
  | fixed piece rest extent takes apart => exact fixed piece rest extent takes apart
  | star rest =>
      cases found : fixedLast? rest leading with
      | none => exact star rest found
      | some last => exact cut .star rest last.1 last.2 rfl found
  | globstar rest =>
      cases found : fixedLast? rest leading with
      | none => exact globstar rest found
      | some last => exact cut .globstar rest last.1 last.2 rfl found
  | list quantifier alternatives rest =>
      cases found : fixedLast? rest leading with
      | none => exact list quantifier alternatives rest found
      | some last => exact cut (.list quantifier alternatives) rest last.1 last.2 rfl found

@[elab_as_elim]
theorem Piece.step_induction {motive : Bool → List Piece → Prop}
    (nil : ∀ leading, motive leading [])
    (trailing : ∀ leading, motive leading [.separator, .globstar])
    (inner : ∀ leading next rest, motive leading (next :: rest) →
      motive leading (.globstar :: next :: rest) →
      motive leading (.separator :: .globstar :: next :: rest))
    (fixed : ∀ leading piece rest extent, piece.extent? = some extent →
      ¬OpensGlobstar piece rest → motive leading rest → motive leading (piece :: rest))
    (cut : ∀ leading piece rest last extent, piece.extent? = none →
      fixedLast? rest leading = some (last, extent) →
      motive false (piece :: rest.dropLast).dropLast → motive false (piece :: rest.dropLast) →
      motive leading (piece :: rest))
    (star : ∀ leading rest, fixedLast? rest leading = none → motive leading rest →
      motive leading (.star :: rest))
    (globstar : ∀ leading rest, fixedLast? rest leading = none → motive leading rest.tail →
      motive leading rest → motive leading (.globstar :: rest))
    (list : ∀ leading quantifier alternatives rest, fixedLast? rest leading = none →
      (∀ alternative ∈ alternatives, motive false alternative) → motive leading rest →
      motive leading (.list quantifier alternatives :: rest))
    (leading : Bool) (pieces : List Piece) : motive leading pieces := by
  induction size : count pieces using Nat.strongRecOn generalizing pieces leading with
  | _ size ih =>
      subst size
      have smaller (leading : Bool) (part : List Piece) (less : count part < count pieces) :
          motive leading part := ih _ less leading part rfl
      cases pieces using step_cases leading with
      | nil => exact nil leading
      | trailing => exact trailing leading
      | inner next rest =>
          apply inner leading next rest
          · exact smaller leading _ (by simp [count, Piece.size]; omega)
          · exact smaller leading _ (by simp [count, Piece.size])
      | fixed piece rest extent takes apart =>
          have positive := piece.size_pos
          exact fixed leading piece rest extent takes apart
            (smaller leading rest (by rw [count]; omega))
      | cut piece rest last extent open_ found =>
          have fewer := count_dropLast_lt_of_fixedLast found
          have fewest := count_dropLast_le (piece :: rest.dropLast)
          rw [count] at fewest
          apply cut leading piece rest last extent open_ found
          · exact smaller false _ (by rw [count]; omega)
          · exact smaller false _ (by rw [count, count]; omega)
      | star rest kept =>
          exact star leading rest kept (smaller leading rest (by simp [count, Piece.size]))
      | globstar rest kept =>
          have fewest := count_tail_le rest
          apply globstar leading rest kept
          · exact smaller leading rest.tail (by simp [count, Piece.size]; omega)
          · exact smaller leading rest (by simp [count, Piece.size])
      | list quantifier alternatives rest kept =>
          apply list leading quantifier alternatives rest kept
          · intro alternative member
            have part := count_le_totalCount member
            exact smaller false alternative (by simp only [count, Piece.size]; omega)
          · exact smaller leading rest (by simp only [count, Piece.size]; omega)

namespace Subject

def acceptsWindow (subject : Subject) (pieces : List Piece) (start stop : Nat) : Bool :=
  subject.accepts pieces start stop false

variable {subject : Subject} {piece : Piece} {rest : List Piece} {start stop extent : Nat}
  {leading : Bool}

theorem accepts_nil : subject.accepts [] start stop leading = true ↔
    start = stop ∨ leading = true ∧ subject.isSeparatorAt start = true := by
  rw [accepts]
  simp

theorem accepts_trailing : subject.accepts [.separator, .globstar] start stop leading = true ↔
    subject.acceptsTrailingGlobstar start stop = true := by
  rw [accepts]

theorem accepts_inner {next : Piece} :
    subject.accepts (.separator :: .globstar :: next :: rest) start stop leading = true ↔
      startsWithSeparator (next :: rest) = true ∧
          subject.accepts (next :: rest) start stop leading = true ∨
        start < stop ∧ subject.isSeparatorAt start = true ∧
          subject.accepts (.globstar :: next :: rest) (start + 1) stop leading = true := by
  rw [accepts]
  · simp [and_assoc]
  · exact fun h => by cases h

theorem accepts_inner_of_ne_nil (nonempty : rest ≠ []) :
    subject.accepts (.separator :: .globstar :: rest) start stop leading = true ↔
      startsWithSeparator rest = true ∧ subject.accepts rest start stop leading = true ∨
        start < stop ∧ subject.isSeparatorAt start = true ∧
          subject.accepts (.globstar :: rest) (start + 1) stop leading = true := by
  obtain ⟨next, rest, rfl⟩ := List.exists_cons_of_ne_nil nonempty
  exact accepts_inner

theorem accepts_fixed (takes : piece.extent? = some extent)
    (apart : ¬Piece.OpensGlobstar piece rest) :
    subject.accepts (piece :: rest) start stop leading = true ↔
      start + extent ≤ stop ∧ subject.standsAt start piece = true ∧
        subject.accepts rest (start + extent) stop leading = true := by
  rw [accepts.eq_def]
  split
  case h_1 same => cases same
  case h_2 same =>
    cases same
    exact absurd ⟨rfl, [], rfl⟩ apart
  case h_3 more _ same =>
    cases same
    exact absurd ⟨rfl, more, rfl⟩ apart
  case h_4 same =>
    cases same
    simp only [takes, Bool.and_eq_true, decide_eq_true_iff, and_assoc]

theorem accepts_cut {last : Piece} (open_ : piece.extent? = none)
    (found : Piece.fixedLast? rest leading = some (last, extent)) :
    subject.accepts (piece :: rest) start stop leading = true ↔
      (subject.endsInZeroDirectories (piece :: rest) start = true ∧
          subject.accepts (piece :: rest.dropLast).dropLast start stop false = true) ∨
        start + extent ≤ stop ∧ subject.standsAt (stop - extent) last = true ∧
          subject.accepts (piece :: rest.dropLast) start (stop - extent) false = true := by
  rw [accepts.eq_def]
  split
  case h_1 same => cases same
  case h_2 same =>
    cases same
    cases open_
  case h_3 same =>
    cases same
    cases open_
  case h_4 same =>
    cases same
    rw [open_]
    simp only
    split
    · next same =>
        cases found.symm.trans same
        simp only [Bool.or_eq_true, Bool.and_eq_true, decide_eq_true_iff, and_assoc]
    · next kept => cases found.symm.trans kept

theorem accepts_star (kept : Piece.fixedLast? rest leading = none) (inside : start ≤ stop) :
    subject.accepts (.star :: rest) start stop leading = true ↔
      ¬(start < stop ∧ subject.isHiddenPeriod start = true) ∧
        ∃ last, start ≤ last ∧ last ≤ stop ∧ subject.Unbroken start last ∧
          subject.accepts rest last stop leading = true := by
  rw [accepts.eq_def]
  simp only [Piece.extent?]
  split
  · simp_all
  · exact acceptsStar_iff inside

/-- A `*` may take nothing, also right before a hidden period that is not in its window. -/
theorem accepts_star_empty (kept : Piece.fixedLast? rest leading = none)
    (taken : subject.accepts rest start start leading = true) :
    subject.accepts (.star :: rest) start start leading = true := by
  apply (accepts_star kept (Nat.le_refl start)).mpr
  refine ⟨fun both => Nat.lt_irrefl start both.1, start, Nat.le_refl start, Nat.le_refl start,
    ?_, taken⟩
  intro i low high
  omega

theorem accepts_globstar (kept : Piece.fixedLast? rest leading = none) :
    subject.accepts (.globstar :: rest) start stop leading = true ↔
      rest = [] ∨
        startsWithSeparator rest = true ∧ subject.atSegmentStart start = true ∧
            subject.accepts rest.tail start stop leading = true ∨
          ∃ last, start ≤ last ∧ last ≤ stop ∧
            subject.accepts rest last stop leading = true := by
  rw [accepts.eq_def]
  simp only [Piece.extent?]
  split
  · simp_all
  · simp [and_assoc, or_assoc]

theorem accepts_list {quantifier : Quantifier} {alternatives : List (List Piece)}
    (kept : Piece.fixedLast? rest leading = none) (inside : start ≤ stop) :
    subject.accepts (.list quantifier alternatives :: rest) start stop leading = true ↔
      ∃ last, start ≤ last ∧ last ≤ stop ∧
        subject.TakesList subject.acceptsWindow alternatives quantifier start last ∧
          subject.accepts rest last stop leading = true := by
  rw [accepts.eq_def]
  simp only [Piece.extent?]
  split
  · simp_all
  · have judged : subject.acceptsList Subtype.val alternatives.attach
        (judged subject.acceptsWindow Subtype.val)
        (fun i => subject.accepts rest i stop leading) start stop quantifier = true ↔ _ :=
      acceptsList_iff quantifier inside
    rw [List.attach_map_subtype_val] at judged
    exact judged

end Subject

end Glob
