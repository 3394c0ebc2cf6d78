import Glob.Proofs.TwoEnded

/-!
The last piece of a matched sequence. In most matches it can be taken off and what comes before it
still matches, also where the matcher does not do so. In the others all pieces are of fixed extent
but for a `**` right before the last one, and that matches nothing.
-/

namespace Glob

structure Cut where
  before : List Piece
  last : Piece
  extent : Nat
  stop : Nat

namespace Piece

/-- The number of characters that pieces of fixed extent take together, where a `/**/` counts as a
single separator. -/
def bareLength? : List Piece → Option Nat
  | [] => some 0
  | .separator :: .globstar :: rest =>
    if Subject.startsWithSeparator rest then bareLength? rest else none
  | piece :: rest => do return (← piece.extent?) + (← bareLength? rest)

variable {piece last : Piece} {rest before pieces : List Piece} {length extent : Nat}

theorem bareLength?_inner (separates : Subject.startsWithSeparator rest = true) :
    bareLength? (.separator :: .globstar :: rest) = bareLength? rest := by
  rw [bareLength?, separates, if_pos rfl]

theorem bareLength?_fixed (takes : piece.extent? = some extent)
    (apart : ¬OpensGlobstar piece rest) :
    bareLength? (piece :: rest) = (bareLength? rest).map (extent + ·) := by
  rw [bareLength?, takes]
  · cases bareLength? rest <;> rfl
  · rintro more rfl rfl
    exact apart ⟨rfl, more, rfl⟩

theorem bareLength?_cons_of_apart (takes : piece.extent? = some extent)
    (apart : ¬OpensGlobstar piece (before ++ rest)) (fixes : bareLength? before = some length) :
    bareLength? (piece :: before) = some (extent + length) := by
  rw [bareLength?_fixed takes, fixes, Option.map_some]
  rintro ⟨separates, more, rfl⟩
  exact apart ⟨separates, more ++ rest, rfl⟩

theorem star_notMem_of_bareLength? (fixes : bareLength? pieces = some length) :
    .star ∉ pieces := by
  induction pieces using sequence_induction generalizing length with
  | nil => simp
  | trailing => simp
  | inner next rest ih _ =>
      cases separates : Subject.startsWithSeparator (next :: rest) with
      | true =>
          rw [bareLength?_inner separates] at fixes
          simpa using ih fixes
      | false =>
          rw [bareLength?, separates] at fixes
          cases fixes
  | fixed piece rest extent takes apart ih =>
      rw [bareLength?_fixed takes apart] at fixes
      obtain ⟨_, later, _⟩ := Option.map_eq_some_iff.mp fixes
      have own : Piece.star ≠ piece := by
        rintro rfl
        cases takes
      simp [own, ih later]
  | star rest | globstar rest | list quantifier alternatives rest =>
      simp [bareLength?, extent?] at fixes

end Piece

namespace Subject

variable {subject : Subject} {piece last next : Piece} {rest before : List Piece}
  {start stop extent length : Nat}

/-- The last piece is taken off, as the end of a `/**/` that matches no directories or at the end of
the window, and what comes before it matches what is left. -/
def TakesOff (subject : Subject) (before : List Piece) (last : Piece)
    (extent start stop : Nat) : Prop :=
  (last = .separator ∧ Piece.endsInGlobstar before = true ∧
      subject.accepts before.dropLast start stop false = true) ∨
    start + extent ≤ stop ∧ subject.standsAt (stop - extent) last = true ∧
      subject.accepts before start (stop - extent) false = true

/-- The last piece comes right after a `**` that matches nothing, where the pieces before that are
of fixed extent: a `/**` would need a component, or a `**/` matches no directories. -/
def MeetsGlobstar (subject : Subject) (start : Nat) (cut : Cut) : Prop :=
  (subject.options.trailingGlobstarNeedsComponent = true ∧
      ∃ front length, cut.before = front ++ [.separator, .globstar] ∧
        Piece.bareLength? front = some length ∧ start + length + 1 + cut.extent = cut.stop) ∨
    cut.last = .separator ∧ Piece.endsInGlobstar cut.before = false ∧
      subject.atSegmentStart cut.stop = true ∧
        ∃ front length, cut.before = front ++ [.globstar] ∧
          Piece.bareLength? front = some length ∧ start + length = cut.stop

theorem star_notMem_of_meetsGlobstar {cut : Cut} (meets : subject.MeetsGlobstar start cut) :
    .star ∉ cut.before := by
  rcases meets with ⟨_, front, length, same, fixes, _⟩ |
    ⟨_, _, _, front, length, same, fixes, _⟩
  · simp [same, Piece.star_notMem_of_bareLength? fixes]
  · simp [same, Piece.star_notMem_of_bareLength? fixes]

theorem eq_of_meetsGlobstar_alone
    (meets : subject.MeetsGlobstar start ⟨[.globstar], last, extent, stop⟩) :
    last = .separator ∧ start = stop := by
  rcases meets with ⟨_, front, _, same, _⟩ | ⟨closes, _, _, front, length, same, fixes, whole⟩
  · simp [List.cons_eq_append_iff] at same
  · obtain rfl : front = [] := by simpa [List.cons_eq_append_iff] using same
    cases fixes
    exact ⟨closes, whole⟩

/-- Either the last piece can be taken off a match, or the match takes nothing off its end. -/
def SplitsLast (subject : Subject) (before : List Piece) (last : Piece)
    (extent start stop : Nat) : Prop :=
  subject.TakesOff before last extent start stop ∨
    subject.Sweeps subject.acceptsWindow (before ++ [last]) start stop false ∧
      subject.MeetsGlobstar start ⟨before, last, extent, stop⟩

theorem splitsLast_open (open_ : piece.extent? = none) (takes : last.extent? = some extent)
    (accepted : subject.accepts (piece :: rest ++ [last]) start stop false = true) :
    subject.SplitsLast (piece :: rest) last extent start stop := by
  by_cases only : piece :: rest = [.globstar] ∧ last = .separator
  · obtain ⟨alone, rfl⟩ := only
    rw [alone] at accepted ⊢
    cases takes
    rcases accepts_globstar_separator.mp accepted with ⟨starts, rfl⟩ | ⟨shorter, separates⟩
    · refine .inr ⟨sweeps_globstar_separator.mpr (.inl ⟨starts, rfl⟩), .inr ⟨rfl, rfl, starts, ?_⟩⟩
      exact ⟨[], 0, rfl, rfl, rfl⟩
    · exact .inl (.inr ⟨shorter, separates, (accepts_globstar rfl).mpr (.inl rfl)⟩)
  · exact .inl ((accepts_open_concat open_ takes only).mp accepted)

theorem splitsLast_trailing (takes : last.extent? = some extent) (inside : start ≤ stop)
    (accepted : subject.accepts [.separator, .globstar, last] start stop false = true) :
    subject.SplitsLast [.separator, .globstar] last extent start stop := by
  rcases accepts_inner.mp accepted with ⟨separates, held⟩ | ⟨shorter, separates, held⟩
  · obtain rfl := eq_separator_of_startsWithSeparator separates
    exact .inl (.inl ⟨rfl, rfl, held⟩)
  have behind : subject.SplitsLast [.globstar] last extent (start + 1) stop :=
    splitsLast_open rfl takes held
  rcases behind with (⟨_, none, _⟩ | ⟨fits, stands, _⟩) | ⟨swept, meets⟩
  · cases none
  · cases needs : subject.options.trailingGlobstarNeedsComponent with
    | false =>
        have trails := (acceptsTrailingGlobstar_free needs).mpr
          (.inr ⟨by omega, separates⟩ : start = stop - extent ∨ _)
        exact .inl (.inr ⟨by omega, stands, accepts_trailing.mpr trails⟩)
    | true =>
        by_cases longer : start + 2 ≤ stop - extent
        · have trails := (acceptsTrailingGlobstar_needs needs).mpr ⟨longer, separates⟩
          exact .inl (.inr ⟨by omega, stands, accepts_trailing.mpr trails⟩)
        · have behind : subject.Sweeps subject.acceptsWindow [last] (stop - extent) stop false :=
            (sweeps_single takes).mpr ⟨by omega, stands⟩
          refine .inr ⟨sweeps_inner.mpr (.inr ⟨shorter, separates, sweeps_globstar.mpr
            (.inr (.inr ⟨stop - extent, by omega, by omega, behind⟩))⟩), .inl ⟨needs, ?_⟩⟩
          exact ⟨[], 0, rfl, rfl, by simp only; omega⟩
  · obtain ⟨rfl, rfl⟩ := eq_of_meetsGlobstar_alone meets
    have single : subject.accepts [.separator] start (start + 1) false = true :=
      (accepts_fixed rfl (by simp [Piece.OpensGlobstar])).mpr
        ⟨Nat.le_refl _, separates, accepts_nil.mpr (.inl rfl)⟩
    exact .inl (.inl ⟨rfl, rfl, single⟩)

theorem accepts_globstar_twice (shorter : start < stop)
    (separates : subject.isSeparatorAt start = true) :
    subject.accepts [.separator, .globstar, .separator, .globstar] start stop false = true := by
  have all : subject.accepts [.globstar] (start + 1) stop false = true :=
    (accepts_globstar rfl).mpr (.inl rfl)
  have starts : subject.atSegmentStart (start + 1) = true := atSegmentStart_iff.mpr (.inr separates)
  have twice : subject.accepts [.globstar, .separator, .globstar] (start + 1) stop false = true :=
    (accepts_globstar rfl).mpr (.inr (.inl ⟨rfl, starts, all⟩))
  exact accepts_inner.mpr (.inr ⟨shorter, separates, twice⟩)

theorem takesOff_of_globstar_twice (takes : last.extent? = some extent)
    (swept : subject.Sweeps subject.acceptsWindow [.separator, .globstar, last] start stop false)
    (meets : subject.MeetsGlobstar start ⟨[.separator, .globstar], last, extent, stop⟩) :
    subject.TakesOff [.separator, .globstar, .separator, .globstar] last extent start stop := by
  have whole : start + 1 + extent = stop := by
    rcases meets with ⟨_, front, length, same, fixes, whole⟩ | ⟨_, loose, _⟩
    · obtain rfl : front = [] := by simpa [List.cons_eq_append_iff] using same
      cases fixes
      exact whole
    · cases loose
  rcases sweeps_inner.mp swept with ⟨_, single⟩ | ⟨shorter, separates, behind⟩
  · have := ((sweeps_single takes).mp single).1
    omega
  rcases sweeps_globstar.mp behind with none | ⟨closes, _, empty⟩ | ⟨i, _, _, single⟩
  · cases none
  · obtain rfl := eq_separator_of_startsWithSeparator closes
    cases takes
    have : start + 1 = stop := by simpa using sweeps_nil.mp empty
    omega
  · obtain ⟨rfl, stands⟩ := (sweeps_single takes).mp single
    refine .inr ⟨by omega, ?_, accepts_globstar_twice (by omega) separates⟩
    rw [Nat.add_sub_cancel]
    exact stands

theorem bareLength?_inner_append {front more : List Piece}
    (starts : startsWithSeparator (front ++ more) = true) (nonempty : front ≠ []) :
    Piece.bareLength? (.separator :: .globstar :: front) = Piece.bareLength? front := by
  apply Piece.bareLength?_inner
  obtain ⟨first, front, rfl⟩ := List.exists_cons_of_ne_nil nonempty
  rw [eq_separator_of_startsWithSeparator starts]
  rfl

theorem meetsGlobstar_inner (starts : startsWithSeparator before = true)
    (other : before ≠ [.separator, .globstar])
    (meets : subject.MeetsGlobstar start ⟨before, last, extent, stop⟩) :
    subject.MeetsGlobstar start ⟨.separator :: .globstar :: before, last, extent, stop⟩ := by
  rcases meets with ⟨needs, front, length, rfl, fixes, whole⟩ |
    ⟨closes, loose, begins, front, length, rfl, fixes, whole⟩
  · have nonempty : front ≠ [] := by
      rintro rfl
      exact other rfl
    exact .inl ⟨needs, .separator :: .globstar :: front, length, rfl,
      (bareLength?_inner_append starts nonempty).trans fixes, whole⟩
  · have nonempty : front ≠ [] := by
      rintro rfl
      cases starts
    refine .inr ⟨closes, ?_, begins, .separator :: .globstar :: front, length, rfl,
      (bareLength?_inner_append starts nonempty).trans fixes, whole⟩
    exact (Piece.endsInGlobstar_cons (by simp)).trans
      ((Piece.endsInGlobstar_cons (by simp)).trans loose)

theorem splitsLast_inner (takes : last.extent? = some extent)
    (later : startsWithSeparator (next :: rest) = true →
      subject.accepts (next :: rest ++ [last]) start stop false = true →
        subject.SplitsLast (next :: rest) last extent start stop)
    (accepted : subject.accepts (.separator :: .globstar :: next :: rest ++ [last]) start stop
      false = true) :
    subject.SplitsLast (.separator :: .globstar :: next :: rest) last extent start stop := by
  rcases accepts_inner.mp accepted with ⟨separates, held⟩ | ⟨shorter, separates, held⟩
  · have starts : startsWithSeparator (next :: rest) = true := by
      rw [← startsWithSeparator_concat (List.cons_ne_nil _ _)]
      exact separates
    rcases later starts held with
      (⟨closes, final, held⟩ | ⟨fits, stands, held⟩) | ⟨swept, meets⟩
    · have still := (startsWithSeparator_dropLast final).trans starts
      have fewer := (accepts_inner_of_ne_nil (Piece.dropLast_ne_nil_of_endsInGlobstar final)).mpr
        (.inl ⟨still, held⟩)
      exact .inl (.inl ⟨closes, final, fewer⟩)
    · exact .inl (.inr ⟨fits, stands, accepts_inner.mpr (.inl ⟨starts, held⟩)⟩)
    -- A `/**/**` takes a single separator as well, so that the last piece comes off after all.
    · by_cases twice : next :: rest = [.separator, .globstar]
      · rw [twice] at meets
        have swept : subject.Sweeps subject.acceptsWindow ([.separator, .globstar] ++ [last]) start
            stop false :=
          twice ▸ swept
        rw [twice]
        exact .inl (takesOff_of_globstar_twice takes swept meets)
      · exact .inr ⟨sweeps_inner.mpr (.inl ⟨separates, swept⟩),
          meetsGlobstar_inner starts twice meets⟩
  · have longer : ¬(Piece.globstar :: next :: rest = [.globstar] ∧ last = .separator) := by
      simp
    rcases (accepts_open_concat rfl takes longer).mp held with
      ⟨closes, final, held⟩ | ⟨fits, stands, held⟩
    · have final : Piece.endsInGlobstar (next :: rest) = true := final
      have fewer := (accepts_inner_of_ne_nil (Piece.dropLast_ne_nil_of_endsInGlobstar final)).mpr
        (.inr ⟨shorter, separates, held⟩)
      exact .inl (.inl ⟨closes, final, fewer⟩)
    · exact .inl (.inr ⟨by omega, stands, accepts_inner.mpr (.inr ⟨by omega, separates, held⟩)⟩)

theorem splitsLast_fixed (takesPiece : piece.extent? = some length)
    (apart : ¬Piece.OpensGlobstar piece rest) (takes : last.extent? = some extent)
    (later : subject.SplitsLast rest last extent (start + length) stop)
    (fits : start + length ≤ stop) (stands : subject.standsAt start piece = true) :
    subject.SplitsLast (piece :: rest) last extent start stop := by
  have apartAll := Piece.not_opensGlobstar_concat apart takes
  have ends := Piece.endsInGlobstar_of_apart apart
  rcases later with (⟨closes, final, held⟩ | ⟨fitsLast, standsLast, held⟩) | ⟨swept, meets⟩
  · refine .inl (.inl ⟨closes, ends.trans final, ?_⟩)
    rw [Piece.dropLast_cons_of_ends final]
    exact (accepts_fixed takesPiece (Piece.not_opensGlobstar_dropLast apart)).mpr
      ⟨fits, stands, held⟩
  · exact .inl (.inr ⟨by omega, standsLast,
      (accepts_fixed takesPiece apart).mpr ⟨by omega, stands, held⟩⟩)
  · refine .inr ⟨(sweeps_fixed takesPiece apartAll).mpr ⟨fits, stands, swept⟩, ?_⟩
    rcases meets with ⟨needs, front, shorter, rfl, fixes, whole⟩ |
      ⟨closes, loose, starts, front, shorter, rfl, fixes, whole⟩
    · refine .inl ⟨needs, piece :: front, length + shorter, rfl, ?_, ?_⟩
      · exact Piece.bareLength?_cons_of_apart takesPiece apart fixes
      · simp only at whole ⊢
        omega
    · refine .inr ⟨closes, ends.trans loose, starts, piece :: front, length + shorter, rfl, ?_, ?_⟩
      · exact Piece.bareLength?_cons_of_apart takesPiece apart fixes
      · simp only at whole ⊢
        omega

theorem splitsLast (takes : last.extent? = some extent) (inside : start ≤ stop)
    (accepted : subject.accepts (before ++ [last]) start stop false = true) :
    subject.SplitsLast before last extent start stop := by
  induction before using Piece.sequence_induction generalizing start with
  | nil =>
      have apart : ¬Piece.OpensGlobstar last [] := by
        simp [Piece.OpensGlobstar]
      obtain ⟨fits, stands, held⟩ := (accepts_fixed takes apart).mp accepted
      have ends : start + extent = stop := by simpa using accepts_nil.mp held
      subst ends
      refine .inl (.inr ⟨fits, ?_, accepts_nil.mpr (.inl (Nat.add_sub_cancel ..).symm)⟩)
      rw [Nat.add_sub_cancel]
      exact stands
  | trailing => exact splitsLast_trailing takes inside accepted
  | inner next rest ih _ => exact splitsLast_inner takes (fun _ => ih inside) accepted
  | fixed piece rest length takesPiece apart ih =>
      have apartAll := Piece.not_opensGlobstar_concat apart takes
      obtain ⟨fits, stands, held⟩ := (accepts_fixed takesPiece apartAll).mp accepted
      exact splitsLast_fixed takesPiece apart takes (ih fits held) fits stands
  | star rest | globstar rest | list quantifier alternatives rest =>
      exact splitsLast_open rfl takes accepted

/-- The pieces that may be taken off the end of a sequence one after the other, where its window
ends at `stop`. -/
def cuts (subject : Subject) (pieces : List Piece) (stop : Nat) : List Cut :=
  match _found : Piece.fixedLast? pieces false with
  | none => []
  | some (last, extent) =>
    let before := pieces.dropLast
    ⟨before, last, extent, stop⟩ ::
      ((if extent ≤ stop && subject.standsAt (stop - extent) last then
          subject.cuts before (stop - extent)
        else []) ++
        if last.isSeparator && Piece.endsInGlobstar before then subject.cuts before.dropLast stop
        else [])
termination_by pieces.length
decreasing_by
  all_goals
    have := List.length_pos_iff.mpr (Piece.ne_nil_of_fixedLast? _found)
    simp only [List.length_dropLast]
    omega

theorem forall_cuts_concat {property : Cut → Prop} (takes : last.extent? = some extent) :
    (∀ cut ∈ subject.cuts (before ++ [last]) stop, property cut) ↔
      property ⟨before, last, extent, stop⟩ ∧
        (extent ≤ stop → subject.standsAt (stop - extent) last = true →
          ∀ cut ∈ subject.cuts before (stop - extent), property cut) ∧
        (last = .separator → Piece.endsInGlobstar before = true →
          ∀ cut ∈ subject.cuts before.dropLast stop, property cut) := by
  rw [cuts, Piece.fixedLast?_concat before takes]
  simp only [List.dropLast_concat, List.forall_mem_cons, List.forall_mem_append]
  apply and_congr_right
  intro _
  apply and_congr
  · by_cases fits : extent ≤ stop <;> cases subject.standsAt (stop - extent) last <;> simp [fits]
  · rw [← Piece.isSeparator_iff]
    cases last.isSeparator <;> cases Piece.endsInGlobstar before <;> simp

end Subject

end Glob
