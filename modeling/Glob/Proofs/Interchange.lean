import Mathlib.Data.List.Forall2
import Glob.Pattern
import Glob.Proofs.Locality

/-!
Texts with other separators. The matcher asks of a character whether it is a separator before it
asks which one it is, so that a pattern without separators in its literals cannot tell them apart.
-/

namespace Glob

/-- The same character twice, or two separators. -/
def Options.Interchangeable (options : Options) (c d : Char) : Prop :=
  c = d ∨ options.isSeparator c = true ∧ options.isSeparator d = true

instance (options : Options) (c d : Char) : Decidable (options.Interchangeable c d) :=
  inferInstanceAs (Decidable (c = d ∨ _))

namespace Options.Interchangeable

variable {options : Options} {c d e : Char}

theorem isSeparator_eq (alike : options.Interchangeable c d) :
    options.isSeparator c = options.isSeparator d := by
  rcases alike with same | ⟨left, right⟩
  · rw [same]
  · rw [left, right]

theorem eq_iff_eq (alike : options.Interchangeable c d) (plain : options.isSeparator e = false) :
    c = e ↔ d = e := by
  rcases alike with same | ⟨left, right⟩
  · rw [same]
  · have apart (separator : Char) (separates : options.isSeparator separator = true) :
        separator ≠ e := by
      intro same
      rw [same, plain] at separates
      exact Bool.false_ne_true separates
    exact iff_of_false (apart c left) (apart d right)

end Options.Interchangeable

namespace Piece

def sparesSeparators (options : Options) : Piece → Bool
  | literal text => !text.any options.isSeparator
  | separator | anyChar | bracket .. | star | globstar | list .. => true

end Piece

def Options.Interchanged (options : Options) (left right : List Char) : Prop :=
  List.Forall₂ options.Interchangeable left right

instance (options : Options) (left right : List Char) :
    Decidable (options.Interchanged left right) :=
  inferInstanceAs (Decidable (List.Forall₂ _ left right))

namespace Options.Interchanged

variable {options : Options} {left right : List Char}

theorem getElem? (same : options.Interchanged left right) (i : Nat) :
    (left[i]? = none ∧ right[i]? = none) ∨
      ∃ c d, left[i]? = some c ∧ right[i]? = some d ∧ options.Interchangeable c d := by
  induction same generalizing i with
  | nil => exact .inl ⟨rfl, rfl⟩
  | @cons c d _ _ alike _ ih =>
      cases i with
      | zero => exact .inr ⟨c, d, rfl, rfl, alike⟩
      | succ i => exact ih i

theorem isSeparator_eq (same : options.Interchanged left right) (i : Nat) :
    left[i]?.any options.isSeparator = right[i]?.any options.isSeparator := by
  rcases same.getElem? i with ⟨leftEnds, rightEnds⟩ | ⟨c, d, leftHas, rightHas, alike⟩
  · rw [leftEnds, rightEnds]
  · rw [leftHas, rightHas]
    exact alike.isSeparator_eq

theorem eq_some_iff {c : Char} (same : options.Interchanged left right)
    (plain : options.isSeparator c = false) (i : Nat) :
    left[i]? = some c ↔ right[i]? = some c := by
  rcases same.getElem? i with ⟨leftEnds, rightEnds⟩ | ⟨d, e, leftHas, rightHas, alike⟩
  · rw [leftEnds, rightEnds]
  · rw [leftHas, rightHas, Option.some_inj, Option.some_inj]
    exact alike.eq_iff_eq plain

theorem eq_of_plain (same : options.Interchanged left right) {i : Nat}
    (plain : left[i]?.any options.isSeparator = false) : left[i]? = right[i]? := by
  cases here : left[i]? with
  | none =>
      rcases same.getElem? i with ⟨_, ends⟩ | ⟨c, _, has, _⟩
      · exact ends.symm
      · rw [here] at has
        cases has
  | some c =>
      rw [here] at plain
      exact ((same.eq_some_iff plain i).mp here).symm

end Options.Interchanged

namespace Subject

variable {options : Options} {left right : List Char}

theorem isSeparatorAt_interchanged (same : options.Interchanged left right) (i : Nat) :
    (Subject.mk left.toArray options).isSeparatorAt i =
      (Subject.mk right.toArray options).isSeparatorAt i := by
  simp only [isSeparatorAt, List.getElem?_toArray]
  exact same.isSeparator_eq i

theorem isHiddenPeriod_interchanged (apart : options.isSeparator '.' = false)
    (same : options.Interchanged left right) (i : Nat) :
    (Subject.mk left.toArray options).isHiddenPeriod i =
      (Subject.mk right.toArray options).isHiddenPeriod i := by
  apply Bool.eq_iff_iff.mpr
  simp only [isHiddenPeriod_iff, List.getElem?_toArray]
  rw [same.eq_some_iff apart i,
    atSegmentStart_congr (fun i _ => isSeparatorAt_interchanged same i) (Nat.le_refl i)]

theorem isPlainAt_interchanged (apart : options.isSeparator '.' = false)
    (same : options.Interchanged left right) (i : Nat) :
    (Subject.mk left.toArray options).isPlainAt i =
      (Subject.mk right.toArray options).isPlainAt i := by
  have length : left.length = right.length := same.length_eq
  simp only [isPlainAt, List.size_toArray, length, isSeparatorAt_interchanged same i,
    isHiddenPeriod_interchanged apart same i]

theorem literalAt_interchanged {text : List Char} (plain : text.any options.isSeparator = false)
    (same : options.Interchanged left right) (i : Nat) :
    (Subject.mk left.toArray options).literalAt text i =
      (Subject.mk right.toArray options).literalAt text i := by
  apply Bool.eq_iff_iff.mpr
  simp only [literalAt_iff, List.getElem?_toArray]
  apply forall₂_congr
  intro j inside
  apply same.eq_some_iff
  simpa using List.any_eq_false.mp plain text[j] (List.getElem_mem inside)

/-- A bracket is asked about a character only where it is no separator. -/
theorem bracket_interchanged (apart : options.isSeparator '.' = false)
    (same : options.Interchanged left right) (members : List CharClass) (negated : Bool) (i : Nat) :
    (Subject.mk left.toArray options).standsAt i (.bracket members negated) =
      (Subject.mk right.toArray options).standsAt i (.bracket members negated) := by
  simp only [standsAt]
  rw [isPlainAt_interchanged apart same i]
  cases plain : (Subject.mk right.toArray options).isPlainAt i with
  | false => rfl
  | true =>
      have clear : left[i]?.any options.isSeparator = false := by
        rw [← isPlainAt_interchanged apart same i] at plain
        simp only [isPlainAt, isSeparatorAt, List.getElem?_toArray, Bool.and_eq_true,
          Bool.not_eq_true'] at plain
        exact plain.1.2
      simp only [isMemberAt, List.getElem?_toArray, same.eq_of_plain clear]

theorem seenAlike_of_interchanged (apart : options.isSeparator '.' = false)
    (same : options.Interchanged left right) (bound : Nat) :
    (Subject.mk left.toArray options).SeenAlike ⟨right.toArray, options⟩
      (·.sparesSeparators options = true) bound := by
  refine ⟨fun i _ => isSeparatorAt_interchanged same i,
    fun i _ => isHiddenPeriod_interchanged apart same i, ?_, .refl options⟩
  intro piece extent i spares takes _
  cases piece with
  | separator => exact isSeparatorAt_interchanged same i
  | literal text =>
      have plain : text.any options.isSeparator = false := by
        simpa [Piece.sparesSeparators] using spares
      exact literalAt_interchanged plain same i
  | anyChar => exact isPlainAt_interchanged apart same i
  | bracket members negated => exact bracket_interchanged apart same members negated i
  | star | globstar | list => cases takes

end Subject

namespace Pattern

variable {pattern : Pattern} {left right : String}

/-- A pattern that writes no separator in a literal does not tell the text's separators apart. -/
theorem accepts_eq_of_interchanged (apart : pattern.options.isSeparator '.' = false)
    (spares : ∀ pieces ∈ pattern.alternatives,
      Piece.Everywhere (·.sparesSeparators pattern.options = true) pieces)
    (same : pattern.options.Interchanged left.toList right.toList) :
    pattern.accepts left = pattern.accepts right := by
  have length : left.toList.length = right.toList.length := same.length_eq
  have upTo (stop : Nat) : pattern.acceptsUpTo left.toList.toArray stop =
      pattern.acceptsUpTo right.toList.toArray stop := by
    apply Bool.eq_iff_iff.mpr
    simp only [acceptsUpTo, List.any_eq_true]
    apply exists_congr
    intro pieces
    apply and_congr_right
    intro present
    exact Subject.accepts_congr_of_seenAlike (Subject.seenAlike_of_interchanged apart same stop)
      (spares pieces present) (Nat.zero_le stop)
  have ends : left.toList.getLast?.any pattern.options.isSeparator =
      right.toList.getLast?.any pattern.options.isSeparator := by
    rw [List.getLast?_eq_getElem?, List.getLast?_eq_getElem?, length]
    exact same.isSeparator_eq _
  rw [accepts, accepts, acceptsChars, acceptsChars, length, upTo, upTo, ends]

theorem accepts_eq_of_interchanged_three_separators :
    let pattern : Pattern := ⟨"*/**/!(.a|?)/[!b-z]", [[.star, .separator, .globstar, .separator,
      .list .negated [[.literal ['.', 'a']], [.anyChar]], .separator,
      .bracket [.range 'b' 'z'] true]], { extraSeparators := [':', ';'], baseLetterRanges := true }⟩
    pattern.options.isSeparator '.' = false ∧
      (∀ pieces ∈ pattern.alternatives,
        Piece.Everywhere (·.sparesSeparators pattern.options = true) pieces) ∧
      pattern.options.Interchanged "x/y/.c/ä/".toList "x;y:.c;ä:".toList ∧
      pattern.accepts "x/y/.c/ä/" = pattern.accepts "x;y:.c;ä:" ∧
      pattern.accepts "x/y/.c/ä/" = true :=
  have spares : ∀ pieces ∈ [[Piece.star, .separator, .globstar, .separator,
      .list .negated [[.literal ['.', 'a']], [.anyChar]], .separator,
      .bracket [.range 'b' 'z'] true]],
      Piece.Everywhere (·.sparesSeparators
        { extraSeparators := [':', ';'], baseLetterRanges := true } = true) pieces := by
    decide
  have same : Options.Interchanged { extraSeparators := [':', ';'], baseLetterRanges := true }
      "x/y/.c/ä/".toList "x;y:.c;ä:".toList := by
    decide +kernel
  ⟨by decide, spares, same, accepts_eq_of_interchanged (by decide) spares same, by decide +kernel⟩

end Pattern

end Glob
