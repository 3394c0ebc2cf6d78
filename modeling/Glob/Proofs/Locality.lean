import Glob.Pattern
import Glob.Proofs.Depth
import Glob.Proofs.TwoEnded

/-!
Whether a window is matched depends on what is seen before its end only. So a text that is tried
again without its last character is matched as the shorter text is.
-/

namespace Glob

namespace Subject

variable {subject other : Subject} {kind : Piece → Prop} {pieces : List Piece}
  {start stop : Nat} {leading : Bool}

theorem accepts_congr_of_seenAlike (alike : subject.SeenAlike other kind stop)
    (known : Piece.Everywhere kind pieces) (inside : start ≤ stop) :
    subject.accepts pieces start stop leading = true ↔
      other.accepts pieces start stop leading = true := by
  induction leading, pieces using Piece.step_induction generalizing start stop with
  | nil leading =>
      rw [accepts_nil, accepts_nil]
      apply or_congr_right'
      intro further
      rw [alike.separators start (by omega)]
  | trailing leading =>
      rw [accepts_trailing, accepts_trailing, alike.acceptsTrailingGlobstar (Nat.le_refl stop)]
  | inner leading next rest ih ihGlobstar =>
      rw [accepts_inner, accepts_inner]
      apply or_congr
      · apply and_congr_right
        intro _
        exact ih alike known.tail.tail inside
      · apply and_congr_right
        intro fits
        rw [alike.separators start fits]
        apply and_congr_right
        intro _
        exact ihGlobstar alike known.tail fits
  | fixed leading piece rest extent takes apart ih =>
      rw [accepts_fixed takes apart, accepts_fixed takes apart]
      apply and_congr_right
      intro fits
      rw [alike.stands piece extent start (known.mem List.mem_cons_self) takes fits]
      apply and_congr_right
      intro _
      exact ih alike known.tail fits
  | cut leading piece rest last extent open_ found ihCloser ih =>
      obtain ⟨_, takes, ends⟩ := Piece.fixedLast?_some found
      have present : last ∈ piece :: rest := by
        rw [ends]
        simp
      have kept : Piece.Everywhere kind (piece :: rest.dropLast) :=
        known.subset (List.cons_subset_cons piece (List.dropLast_subset rest))
      rw [accepts_cut open_ found, accepts_cut open_ found, alike.endsInZeroDirectories inside]
      apply or_congr
      · apply and_congr_right
        intro _
        exact ihCloser alike (kept.subset (List.dropLast_subset _)) inside
      · apply and_congr_right
        intro fits
        rw [alike.stands last extent (stop - extent) (known.mem present) takes (by omega)]
        apply and_congr_right
        intro _
        -- The window ends sooner here: what is alike before its end is so before any earlier one.
        exact ih (alike.mono (Nat.sub_le stop extent)) kept (by omega)
  | star leading rest kept ih =>
      rw [accepts_star kept inside, accepts_star kept inside]
      apply and_congr
      · apply not_congr
        apply and_congr_right
        intro shorter
        rw [alike.periods start shorter]
      · apply exists_within_congr
        intro middle _ bound
        rw [alike.unbroken bound, ih alike known.tail bound]
  | globstar leading rest kept ihTail ih =>
      have keptTail : Piece.Everywhere kind rest.tail :=
        known.tail.subset fun _ => List.mem_of_mem_tail
      rw [accepts_globstar kept, accepts_globstar kept, alike.atSegmentStart inside,
        ihTail alike keptTail inside]
      apply or_congr_right
      apply or_congr_right
      apply exists_within_congr
      intro middle _ bound
      exact ih alike known.tail bound
  | list leading quantifier alternatives rest kept ihAlternatives ih =>
      rw [accepts_list kept inside, accepts_list kept inside]
      apply exists_within_congr
      intro middle low bound
      rw [ih alike known.tail bound]
      apply and_congr_left
      intro _
      apply takesList_congr (alike.mono bound) low
      intro alternative member i j _ first final
      exact Bool.eq_iff_iff.mpr (ihAlternatives alternative member
        (alike.mono (Nat.le_trans final bound)) (known.of_alternative List.mem_cons_self member)
        first)

theorem accepts_congr (agrees : subject.AgreesBelow other stop) (inside : start ≤ stop) :
    subject.accepts pieces start stop false = true ↔
      other.accepts pieces start stop false = true :=
  accepts_congr_of_seenAlike agrees.seenAlike (fun _ _ _ _ => trivial) inside

theorem agreesBelow_append (before after other : List Char) (options : Options) :
    (Subject.mk (before ++ after).toArray options).AgreesBelow ⟨(before ++ other).toArray, options⟩
      before.length := by
  refine ⟨?_, .refl options⟩
  intro i inside
  simp only [List.getElem?_toArray, List.getElem?_append_left inside]

end Subject

namespace Pattern

variable {pattern : Pattern}

def acceptsWhole (pattern : Pattern) (chars : List Char) : Bool :=
  pattern.acceptsUpTo chars.toArray chars.length

theorem acceptsUpTo_append (before after : List Char) :
    pattern.acceptsUpTo (before ++ after).toArray before.length = pattern.acceptsWhole before := by
  have agrees := Subject.agreesBelow_append before after [] pattern.options
  rw [List.append_nil] at agrees
  apply Bool.eq_iff_iff.mpr
  simp only [acceptsWhole, acceptsUpTo, List.any_eq_true]
  apply exists_congr
  intro pieces
  apply and_congr_right
  intro _
  exact Subject.accepts_congr_of_seenAlike agrees.seenAlike (fun _ _ _ _ => trivial)
    (Nat.zero_le before.length)

theorem acceptsChars_iff_acceptsWhole {chars : List Char} :
    pattern.acceptsChars chars = true ↔ pattern.acceptsWhole chars = true ∨
      pattern.options.ignoresTrailingSeparator = true ∧ ∃ before c, chars = before ++ [c] ∧
        pattern.options.isSeparator c = true ∧ pattern.acceptsWhole before = true := by
  have shorter (before : List Char) (c : Char) :
      pattern.acceptsUpTo (before ++ [c]).toArray ((before ++ [c]).length - 1) =
        pattern.acceptsWhole before := by
    rw [List.length_append, List.length_singleton, Nat.add_sub_cancel]
    exact acceptsUpTo_append before [c]
  simp only [acceptsChars, Bool.or_eq_true, Bool.and_eq_true, and_assoc]
  apply or_congr_right
  apply and_congr_right
  intro _
  constructor
  · intro ⟨ending, held⟩
    obtain ⟨c, last, separates⟩ := (Option.any_eq_true _ _).mp ending
    obtain ⟨before, split⟩ := List.getLast?_eq_some_iff.mp last
    subst split
    rw [shorter] at held
    exact ⟨before, c, rfl, separates, held⟩
  · rintro ⟨before, c, rfl, separates, held⟩
    rw [shorter]
    exact ⟨by simp [separates], held⟩

theorem accepts_of_acceptsUpTo {other : Pattern} {text : String}
    (upTo : ∀ stop, pattern.acceptsUpTo text.toList.toArray stop = true →
      other.acceptsUpTo text.toList.toArray stop = true)
    (ignores : pattern.options.ignoresTrailingSeparator = other.options.ignoresTrailingSeparator)
    (separators : pattern.options.isSeparator = other.options.isSeparator)
    (accepted : pattern.accepts text = true) : other.accepts text = true := by
  simp only [accepts, acceptsChars, ← ignores, ← separators, Bool.or_eq_true, Bool.and_eq_true]
    at accepted ⊢
  rcases accepted with whole | ⟨trimmed, held⟩
  · exact .inl (upTo _ whole)
  · exact .inr ⟨trimmed, upTo _ held⟩

/-- A text that is tried again without the separator at its end is matched as the shorter text: what
is matched in a window depends on the characters before its end only. -/
theorem accepts_iff_acceptsWhole (pattern : Pattern) :
    (∀ text : String, pattern.accepts text = true ↔ pattern.acceptsWhole text.toList = true ∨
      pattern.options.ignoresTrailingSeparator = true ∧ ∃ (shorter : String) (c : Char),
        text = shorter.push c ∧ pattern.options.isSeparator c = true ∧
          pattern.acceptsWhole shorter.toList = true) ∧
    ∀ (options : Options) (pieces : List Piece) (before after other : List Char) (start : Nat)
      (leading : Bool), start ≤ before.length →
        (Subject.mk (before ++ after).toArray options).accepts pieces start before.length leading =
          (Subject.mk (before ++ other).toArray options).accepts pieces start before.length
            leading := by
  constructor
  · intro text
    rw [accepts, acceptsChars_iff_acceptsWhole]
    apply or_congr_right
    apply and_congr_right
    intro _
    constructor
    · rintro ⟨before, c, split, found⟩
      refine ⟨String.ofList before, c, ?_, ?_⟩
      · rw [← String.toList_inj, split]
        simp
      · rwa [String.toList_ofList]
    · rintro ⟨shorter, c, rfl, found⟩
      exact ⟨shorter.toList, c, String.toList_push c, found⟩
  · intro options pieces before after other start leading inside
    apply Bool.eq_iff_iff.mpr
    exact Subject.accepts_congr_of_seenAlike
      (Subject.agreesBelow_append before after other options).seenAlike (fun _ _ _ _ => trivial)
      inside

/-- A separator that `**` and a negated list would both reach, were it not behind the end. -/
theorem accepts_iff_acceptsWhole_negated_list :
    let pattern : Pattern := ⟨"**/!(x|)", [[.globstar, .separator,
      .list .negated [[.literal ['x']], []]]], { extraSeparators := [':'] }⟩
    let subject (rest : List Char) : Subject := ⟨("y/z".toList ++ rest).toArray, pattern.options⟩
    pattern.acceptsWhole "y/z:".toList = false ∧ pattern.accepts "y/z:" = true ∧
      (pattern.accepts "y/z:" = true ↔ pattern.acceptsWhole "y/z:".toList = true ∨
        pattern.options.ignoresTrailingSeparator = true ∧ ∃ (shorter : String) (c : Char),
          "y/z:" = shorter.push c ∧ pattern.options.isSeparator c = true ∧
            pattern.acceptsWhole shorter.toList = true) ∧
      1 ≤ "y/z".toList.length ∧
      ∀ pieces ∈ pattern.alternatives, (subject [':']).accepts pieces 1 3 true =
        (subject ['/', 'x']).accepts pieces 1 3 true :=
  have law := accepts_iff_acceptsWhole ⟨"**/!(x|)", [[.globstar, .separator,
    .list .negated [[.literal ['x']], []]]], { extraSeparators := [':'] }⟩
  ⟨by decide +kernel, by decide +kernel, law.1 "y/z:", by decide, fun pieces _ =>
    law.2 { extraSeparators := [':'] } pieces "y/z".toList [':'] ['/', 'x'] 1 true (by decide)⟩

end Pattern

end Glob
