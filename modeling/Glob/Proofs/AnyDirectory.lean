import Glob.Proofs.LastPiece
import Glob.Proofs.ListLaws

/-!
A `**` and a separator in front of a sequence. They may match no directories, so they only widen
what the sequence matches, except where its end is taken off too early: behind the `**` it is taken
off before a `/**` that comes first on its own.
-/

namespace Glob

namespace Piece

def isGlobstar : Piece → Bool
  | globstar => true
  | _ => false

end Piece

namespace Subject

variable {subject : Subject} {piece last : Piece} {pieces before : List Piece} {cut : Cut}
  {start stop extent : Nat} {leading : Bool} {text : List Char}

/-- Whether the text is just as long as the fixed pieces are where a `/**` before the last one, that
needs a component, has none. -/
def losesComponent (subject : Subject) (start : Nat) (cut : Cut) : Bool :=
  subject.options.trailingGlobstarNeedsComponent && Piece.endsInGlobstar cut.before &&
    (Piece.bareLength? cut.before.dropLast.dropLast).any fun length =>
      start + length + 1 + cut.extent == cut.stop

/-- Whether the text is just as long as the fixed pieces are before a final `**/` that is neither
alone nor behind a separator. -/
def losesDirectories (subject : Subject) (start : Nat) (cut : Cut) : Bool :=
  cut.last.isSeparator && !Piece.endsInGlobstar cut.before && subject.atSegmentStart cut.stop &&
    2 ≤ cut.before.length && cut.before.getLast?.any (·.isGlobstar) &&
      (Piece.bareLength? cut.before.dropLast).any fun length => start + length == cut.stop

/-- Whether a `**/` in front of the pieces may match no directories: with an open end nothing is
taken off, and otherwise nothing is lost with what is. -/
def admitsDirectories (subject : Subject) (pieces : List Piece) (start stop : Nat)
    (leading : Bool) : Bool :=
  leading || (subject.cuts pieces stop).all fun cut =>
    !subject.losesComponent start cut && !subject.losesDirectories start cut

theorem loses_of_meetsGlobstar (meets : subject.MeetsGlobstar start cut)
    (longer : cut.before ≠ [.globstar]) :
    subject.losesComponent start cut = true ∨ subject.losesDirectories start cut = true := by
  rcases meets with ⟨needs, front, length, split, fixes, whole⟩ |
    ⟨closes, loose, starts, front, length, split, fixes, whole⟩
  · have ends := Piece.endsInGlobstar_iff.mpr ⟨front, split⟩
    have short : cut.before.dropLast.dropLast = front := by simp [split]
    exact .inl (by simp [losesComponent, needs, ends, short, fixes, whole])
  · have several : 2 ≤ cut.before.length := by
      rcases front with _ | ⟨first, front⟩
      · exact absurd split longer
      · simp [split]
    have separator := Piece.isSeparator_iff.mpr closes
    have final : cut.before.getLast?.any (·.isGlobstar) = true := by simp [split, Piece.isGlobstar]
    have short : cut.before.dropLast = front := by simp [split]
    exact .inr (by simp [losesDirectories, separator, loose, starts, several, final, short, fixes,
      whole])

theorem accepts_no_directories (starts : subject.atSegmentStart start = true)
    (kept : Piece.fixedLast? pieces leading = none)
    (accepted : subject.accepts pieces start stop leading = true) :
    subject.accepts (.globstar :: .separator :: pieces) start stop leading = true := by
  by_cases alone : pieces = [] ∧ leading = false
  · obtain ⟨rfl, rfl⟩ := alone
    have same : start = stop := by simpa using accepts_nil.mp accepted
    exact accepts_globstar_separator.mpr (.inl ⟨starts, same⟩)
  · have keptAll : Piece.fixedLast? (.separator :: pieces) leading = none := by
      cases leading with
      | true => rfl
      | false =>
          rcases pieces with _ | ⟨piece, pieces⟩
          · exact absurd ⟨rfl, rfl⟩ alone
          · exact kept
    exact (accepts_globstar keptAll).mpr (.inr (.inl ⟨rfl, starts, accepted⟩))

theorem accepts_directories_of_cuts (starts : subject.atSegmentStart start = true)
    (inside : start ≤ stop)
    (kept : ∀ cut ∈ subject.cuts pieces stop,
      subject.losesComponent start cut = false ∧ subject.losesDirectories start cut = false)
    (accepted : subject.accepts pieces start stop false = true) :
    subject.accepts (.globstar :: .separator :: pieces) start stop false = true := by
  induction pieces using Piece.cut_induction false generalizing stop with
  | kept pieces found => exact accepts_no_directories starts found accepted
  | cut before last extent _ takes ih ihCloser =>
      obtain ⟨own, later, closer⟩ := (forall_cuts_concat takes).mp kept
      have longer : ¬(Piece.globstar :: .separator :: before = [.globstar] ∧
          last = .separator) := by
        simp
      have cut : subject.accepts (.globstar :: (.separator :: before) ++ [last]) start stop
          false = true ↔ _ :=
        accepts_open_concat rfl takes longer
      rcases splitsLast takes inside accepted with
        (⟨closes, ends, held⟩ | ⟨fits, stands, held⟩) | ⟨_, meets⟩
      · have held := ihCloser inside (closer closes ends) held
        have longer : Piece.endsInGlobstar (.globstar :: .separator :: before) = true :=
          Piece.endsInGlobstar_cons_of_ends (Piece.endsInGlobstar_cons_of_ends ends)
        refine cut.mpr (.inl ⟨closes, longer, ?_⟩)
        rw [List.dropLast_cons_of_ne_nil (List.cons_ne_nil _ _),
          Piece.dropLast_cons_of_ends ends]
        exact held
      · have held := ih (by omega) (later (by omega) stands) held
        exact cut.mpr (.inr ⟨fits, stands, held⟩)
      · by_cases only : before = [.globstar]
        · subst only
          obtain ⟨rfl, rfl⟩ := eq_of_meetsGlobstar_alone meets
          exact cut.mpr (.inl ⟨rfl, rfl, accepts_globstar_separator.mpr (.inl ⟨starts, rfl⟩)⟩)
        · rcases loses_of_meetsGlobstar meets only with loses | loses
          · exact absurd (own.1.symm.trans loses) Bool.false_ne_true
          · exact absurd (own.2.symm.trans loses) Bool.false_ne_true

theorem accepts_directories (starts : subject.atSegmentStart start = true) (inside : start ≤ stop)
    (admits : subject.admitsDirectories pieces start stop leading = true)
    (accepted : subject.accepts pieces start stop leading = true) :
    subject.accepts (.globstar :: .separator :: pieces) start stop leading = true := by
  cases leading with
  | true => exact accepts_no_directories starts rfl accepted
  | false =>
      apply accepts_directories_of_cuts starts inside _ accepted
      simpa [admitsDirectories] using admits

theorem le_of_accepts_directories {length : Nat}
    (kept : Piece.fixedLast? (.separator :: pieces) false = none)
    (apart : ¬Piece.OpensGlobstar .separator pieces)
    (takes : ∀ i, subject.accepts pieces i stop false = true → i + length ≤ stop)
    (accepted : subject.accepts (.globstar :: .separator :: pieces) start stop false = true) :
    start + length ≤ stop := by
  rcases (accepts_globstar kept).mp accepted with none | ⟨_, _, held⟩ | ⟨i, low, _, held⟩
  · cases none
  · exact takes start held
  · obtain ⟨_, _, held⟩ := (accepts_fixed rfl apart).mp held
    have := takes (i + 1) held
    omega

/-- Without the last piece the `/**` comes last, where it needs a component. -/
theorem any_directory_misses_component
    (needs : subject.options.trailingGlobstarNeedsComponent = true)
    (stands : subject.literalAt text start = true)
    (separates : subject.isSeparatorAt (start + text.length) = true)
    (takes : last.extent? = some extent) (other : last ≠ .separator)
    (final : subject.standsAt (start + text.length + 1) last = true) :
    let pieces : List Piece := [.literal text, .separator, .globstar, last]
    subject.accepts pieces start (start + text.length + 1 + extent) false = true ∧
      subject.accepts (.globstar :: .separator :: pieces) start (start + text.length + 1 + extent)
        false = false := by
  have apart (more : List Piece) : ¬Piece.OpensGlobstar (.literal text) more := by
    simp [Piece.OpensGlobstar]
  constructor
  · have behind : subject.accepts (.globstar :: [] ++ [last]) (start + text.length + 1)
        (start + text.length + 1 + extent) false = true := by
      apply (accepts_concat rfl takes (fun both => other both.1)).mpr
      rw [Nat.add_sub_cancel]
      exact ⟨Nat.le_refl _, final, (accepts_globstar rfl).mpr (.inl rfl)⟩
    exact (accepts_fixed rfl (apart _)).mpr
      ⟨by omega, stands, accepts_inner.mpr (.inr ⟨by omega, separates, behind⟩)⟩
  · apply Bool.eq_false_iff.mpr
    intro accepted
    have long (i : Nat) (held : subject.accepts [.literal text, .separator, .globstar] i
        (start + text.length + 1) false = true) :
        i + (text.length + 2) ≤ start + text.length + 1 := by
      obtain ⟨_, _, held⟩ := (accepts_fixed rfl (apart _)).mp held
      exact ((acceptsTrailingGlobstar_needs needs).mp (accepts_trailing.mp held)).1
    have cut : subject.accepts (.globstar :: [.separator, .literal text, .separator, .globstar] ++
        [last]) start (start + text.length + 1 + extent) false = true ↔ _ :=
      accepts_concat rfl takes (fun both => other both.1)
    obtain ⟨_, _, held⟩ := cut.mp accepted
    rw [Nat.add_sub_cancel] at held
    have := le_of_accepts_directories rfl (by simp [Piece.OpensGlobstar]) long held
    omega

/-- A final `**/` that begins a component matches no directories, but not without its separator. -/
theorem any_directory_misses_directories (stands : subject.literalAt text start = true)
    (starts : subject.atSegmentStart (start + text.length) = true) :
    let pieces : List Piece := [.literal text, .globstar, .separator]
    subject.accepts pieces start (start + text.length) false = true ∧
      subject.accepts (.globstar :: .separator :: pieces) start (start + text.length) false =
        false := by
  have apart (more : List Piece) : ¬Piece.OpensGlobstar (.literal text) more := by
    simp [Piece.OpensGlobstar]
  constructor
  · exact (accepts_fixed rfl (apart _)).mpr
      ⟨Nat.le_refl _, stands, accepts_globstar_separator.mpr (.inl ⟨starts, rfl⟩)⟩
  · apply Bool.eq_false_iff.mpr
    intro accepted
    have long (i : Nat) (held : subject.accepts [.literal text, .globstar] i
        (start + text.length - 1) false = true) : i + text.length ≤ start + text.length - 1 :=
      ((accepts_fixed rfl (apart _)).mp held).1
    have cut : subject.accepts (.globstar :: [.separator, .literal text, .globstar] ++
        [.separator]) start (start + text.length) false = true ↔ _ :=
      accepts_open_concat rfl rfl (by simp)
    rcases cut.mp accepted with ⟨_, ends, _⟩ | ⟨fits, _, held⟩
    · cases ends
    have := le_of_accepts_directories rfl (by simp [Piece.OpensGlobstar]) long held
    omega

end Subject

namespace Pattern

variable {options : Options} {pieces : List Piece} {text : String}

/-- A `**/` in front only widens what a sequence matches, but where a last piece that is taken off
leaves a `**` behind that matched nothing, with pieces of fixed extent on both sides. -/
theorem accepts_any_directory
    (admits : ∀ stop, options.MayReadTo text.toList stop →
      (Subject.mk text.toList.toArray options).accepts pieces 0 stop options.leadingDirectories =
        true →
      (Subject.mk text.toList.toArray options).admitsDirectories pieces 0 stop
        options.leadingDirectories = true)
    (accepted : (ofSequence options pieces).accepts text = true) :
    (ofSequence options (.globstar :: .separator :: pieces)).accepts text = true := by
  obtain ⟨stop, reads, held⟩ := accepts_ofSequence_iff.mp accepted
  apply accepts_ofSequence_iff.mpr
  exact ⟨stop, reads,
    Subject.accepts_directories rfl (Nat.zero_le stop) (admits stop reads held) held⟩

theorem accepts_any_directory_component :
    let pieces : List Piece := [.literal ['x'], .separator, .globstar, .literal ['a'], .anyChar]
    (∀ stop, ({} : Options).MayReadTo "x/bac".toList stop →
      (Subject.mk "x/bac".toList.toArray {}).admitsDirectories pieces 0 stop false = true) ∧
      (ofSequence {} pieces).accepts "x/bac" = true ∧
      (ofSequence {} (.globstar :: .separator :: pieces)).accepts "x/bac" = true :=
  have admits : ∀ stop, ({} : Options).MayReadTo "x/bac".toList stop →
      (Subject.mk "x/bac".toList.toArray {}).admitsDirectories
        [.literal ['x'], .separator, .globstar, .literal ['a'], .anyChar] 0 stop false = true := by
    intro stop reads
    obtain rfl := Options.eq_length_of_mayReadTo (by decide) reads
    decide +kernel
  have accepted : (ofSequence {} [.literal ['x'], .separator, .globstar, .literal ['a'],
      .anyChar]).accepts "x/bac" = true := by
    decide +kernel
  ⟨admits, accepted, accepts_any_directory (fun stop reads _ => admits stop reads) accepted⟩

end Pattern

end Glob
