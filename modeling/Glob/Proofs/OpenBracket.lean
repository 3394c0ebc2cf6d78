import Glob.Proofs.BraceProduct
import Glob.Proofs.Cause

/-!
Reading a bracket expression that is not closed. The reader goes on to the end of the pattern, and
what is wrong with the ranges on its way there is found before the closing bracket is missed.
-/

namespace Glob

namespace Glyph

def char : Glyph → Char
  | plain c | escaped c => c

variable {chars after : List Char} {glyph : Glyph} {rest : List Glyph}

theorem eq_nil_of_ofText_eq_nil (read : ofText true chars = []) : chars = [] := by
  rw [← text_ofText true chars, read]
  rfl

theorem exists_of_ofText_eq_cons (read : ofText true chars = glyph :: rest) :
    ∃ after, chars = glyph.chars ++ after ∧ ofText true after = rest ∧
      (glyph = plain '\\' → after = []) := by
  unfold ofText at read
  split at read
  · cases read
  · next c after =>
      cases read
      exact ⟨after, rfl, rfl, fun same => by cases same⟩
  · next c after unpaired =>
      cases read
      refine ⟨after, rfl, rfl, ?_⟩
      rintro ⟨⟩
      cases after with
      | nil => rfl
      | cons next later => exact (unpaired next later rfl rfl).elim

theorem exists_of_ofText_eq_cons_cons {c : Char}
    (read : ofText true chars = glyph :: plain c :: rest) :
    ∃ last, chars = glyph.chars ++ c :: last ∧ ofText true last = rest ∧ glyph ≠ plain '\\' := by
  obtain ⟨after, rfl, others, final⟩ := exists_of_ofText_eq_cons read
  obtain ⟨last, rfl, same, -⟩ := exists_of_ofText_eq_cons others
  exact ⟨last, rfl, same, fun mark => List.cons_ne_nil _ _ (final mark)⟩

theorem endsInEscape_of_suffix (inside : ofText true after <:+ ofText true chars)
    (dangling : endsInEscape true after = true) : endsInEscape true chars = true := by
  obtain ⟨before, whole⟩ := inside
  simp only [endsInEscape, Bool.true_and, beq_iff_eq] at dangling ⊢
  rw [← whole, List.getLast?_append, dangling, Option.some_or]

end Glyph

theorem NegationMark.ne_of_isNegation {mark : NegationMark} {c : Char}
    (negates : mark.isNegation c = true) : c ≠ '\\' := by
  rintro rfl
  cases mark <;> simp [isNegation] at negates

namespace Bracket

open Glyph

/-- Whether a bracket and one of the marks begin a named class or a collating element. -/
def opensName (marks : List Char) (glyph : Glyph) (rest : List Glyph) : Bool :=
  glyph = .plain '[' && rest.head?.any fun next => marks.any fun mark => next = .plain mark

/-- The first range that is wrong. Nothing is looked at from a name on, which does not end, and a
range that the text ends in has no upper bound. -/
def rangeMistake? (hyphens : Bool) : List Glyph → Option Mistake
  | [] => none
  | first :: rest =>
    if first = .plain '-' then
      if hyphens then rangeMistake? hyphens rest else some .rangeWithoutLowerBound
    else if opensName [':', '.', '='] first rest then none
    else
      match rest with
      | [.plain '-'] => none
      | .plain '-' :: last :: after =>
        if last = .plain '\\' || opensName ['.', '='] last after then none
        else if first.char ≤ last.char then rangeMistake? hyphens after
        else some .rangeOutOfOrder
      | rest => rangeMistake? hyphens rest

def mistakeAfter? (options : Options) : List Glyph → Option Mistake
  | .plain c :: rest =>
    rangeMistake? options.edgeHyphens
      (if options.negation.isNegation c then rest else .plain c :: rest)
  | glyphs => rangeMistake? options.edgeHyphens glyphs

/-- How reading ends without a closing bracket: with the mistake, if there is one, and otherwise at
the end of the text, unless a backslash there has nothing to escape. -/
inductive Halts (chars : List Char) : Option Mistake → Halt → Prop
  | wrong (mistake : Mistake) (rest : List Char) :
    Halts chars (some mistake) (.failure ⟨mistake, rest⟩)
  | unclosed : Halts chars none .unclosed
  | inEscape (dangling : endsInEscape true chars = true) :
    Halts chars none (.failure ⟨.danglingEscape, ['\\']⟩)

variable {options : Options} {chars after : List Char} {mark : Char} {glyph : Glyph}
  {glyphs rest : List Glyph} {first : Bool} {reason : Halt}

theorem splitAtMark?_eq_none (unclosed : ']' ∉ chars) : splitAtMark? mark chars = none := by
  cases found : splitAtMark? mark chars with
  | none => rfl
  | some parts =>
      rw [eq_of_splitAtMark found] at unclosed
      simp at unclosed

theorem opensName_iff {marks : List Char} (unescaping : '\\' ∉ marks) :
    opensName marks glyph (ofText true after) = true ↔
      glyph = .plain '[' ∧ ∃ mark ∈ marks, ∃ later, after = mark :: later := by
  simp only [opensName, Bool.and_eq_true, decide_eq_true_eq, Option.any_eq_true, List.any_eq_true]
  refine and_congr_right fun _ => ?_
  constructor
  · rintro ⟨_, head, mark, listed, rfl⟩
    obtain ⟨rest, read⟩ := List.head?_eq_some_iff.mp head
    obtain ⟨later, rfl, -, -⟩ := exists_of_ofText_eq_cons read
    exact ⟨mark, listed, later, rfl⟩
  · rintro ⟨mark, listed, later, rfl⟩
    have single : mark ≠ '\\' := fun same => unescaping (same ▸ listed)
    exact ⟨.plain mark, by rw [ofText_cons single, List.head?_cons], mark, listed, rfl⟩

theorem readBound_of_opensName (unclosed : ']' ∉ after)
    (opens : opensName ['.', '='] glyph (ofText true after) = true) :
    readBound true (glyph.chars ++ after) = .error .unclosed := by
  obtain ⟨rfl, mark, listed, later, rfl⟩ := (opensName_iff (by decide)).mp opens
  have marks : mark = '.' ∨ mark = '=' := by simpa using listed
  simp [Glyph.chars, readBound, marks,
    splitAtMark?_eq_none (List.not_mem_of_not_mem_cons unclosed)]

theorem readBound_of_glyph (paired : glyph ≠ .plain '\\')
    (single : opensName ['.', '='] glyph (ofText true after) = false) :
    readBound true (glyph.chars ++ after) = .ok (glyph.char, after) := by
  cases glyph with
  | escaped c => rfl
  | plain c =>
      have unescaping : c ≠ '\\' := fun same => paired (congrArg plain same)
      by_cases bracket : c = '['
      · subst bracket
        rw [← Bool.not_eq_true, opensName_iff (by decide)] at single
        cases after with
        | nil => rfl
        | cons mark later =>
            have plainMark : ¬(mark = '.' ∨ mark = '=') := fun marks =>
              single ⟨rfl, mark, by simpa using marks, later, rfl⟩
            simp [Glyph.chars, readBound, Glyph.char, plainMark]
      · exact readBound.eq_5 true c after (fun _ _ same => absurd same bracket) unescaping

theorem opensName_of_subset {marks more : List Char} (fewer : marks ⊆ more)
    (single : opensName more glyph rest = false) : opensName marks glyph rest = false := by
  simp only [opensName, Bool.and_eq_false_iff, Option.any_eq_false, List.any_eq_false] at single ⊢
  exact single.imp_right fun none next head mark listed => none next head mark (fewer listed)

theorem readMember_of_opensName (unclosed : ']' ∉ after)
    (opens : opensName [':', '.', '='] glyph (ofText true after) = true) :
    readMember options (glyph.chars ++ after) = .error .unclosed := by
  obtain ⟨rfl, mark, listed, later, rfl⟩ := (opensName_iff (by decide)).mp opens
  have open_ : splitAtMark? mark later = none :=
    splitAtMark?_eq_none (List.not_mem_of_not_mem_cons unclosed)
  have marks : mark = ':' ∨ mark = '.' ∨ mark = '=' := by simpa using listed
  rcases marks with rfl | rfl | rfl <;> simp [Glyph.chars, readMember, readBound, open_]

theorem ne_class_and_ne_hyphen (noHyphen : glyph ≠ .plain '-')
    (single : opensName [':', '.', '='] glyph (ofText true after) = false) :
    (∀ rest, glyph.chars ++ after ≠ '[' :: ':' :: rest) ∧
      ∀ rest, glyph.chars ++ after ≠ '-' :: rest := by
  rw [← Bool.not_eq_true, opensName_iff (by decide)] at single
  cases glyph with
  | escaped c => simp [Glyph.chars]
  | plain c =>
      constructor
      · rintro rest same
        obtain ⟨rfl, rfl⟩ := List.cons.inj same
        exact single ⟨rfl, ':', by decide, rest, rfl⟩
      · rintro rest same
        obtain ⟨rfl, -⟩ := List.cons.inj same
        exact noHyphen rfl

theorem readMember_of_alone (escapes : options.escapes = true) (noHyphen : glyph ≠ .plain '-')
    (paired : glyph ≠ .plain '\\')
    (single : opensName [':', '.', '='] glyph (ofText true after) = false)
    (alone : ∀ rest, after ≠ '-' :: rest) :
    readMember options (glyph.chars ++ after) = .ok ([.single glyph.char], after) := by
  obtain ⟨noClass, noHyphen⟩ := ne_class_and_ne_hyphen noHyphen single
  have bound := readBound_of_glyph paired (opensName_of_subset (by decide) single)
  rw [← escapes] at bound
  exact readMember_eq_single noClass noHyphen bound alone

theorem readMember_of_hyphen (escapes : options.escapes = true) (noHyphen : glyph ≠ .plain '-')
    (paired : glyph ≠ .plain '\\') (goesOn : ']' ∉ after) :
    readMember options (glyph.chars ++ '-' :: after) =
      match readBound true after with
      | .error reason => .error reason
      | .ok (upper, rest) =>
        if glyph.char ≤ upper then .ok ([.range glyph.char upper], rest)
        else halt .rangeOutOfOrder (glyph.chars ++ '-' :: after) := by
  have single : opensName [':', '.', '='] glyph (ofText true ('-' :: after)) = false := by
    rw [← Bool.not_eq_true, opensName_iff (by decide)]
    simp
  obtain ⟨noClass, noHyphen⟩ := ne_class_and_ne_hyphen noHyphen single
  have bound := readBound_of_glyph paired (opensName_of_subset (by decide) single)
  have other (rest : List Char) : after ≠ ']' :: rest := by
    rintro rfl
    exact goesOn List.mem_cons_self
  rw [← escapes] at bound ⊢
  exact readMember_eq_range noClass noHyphen bound other

theorem readMember_of_range {last : Glyph} (escapes : options.escapes = true)
    (noHyphen : glyph ≠ .plain '-') (paired : glyph ≠ .plain '\\')
    (lastPaired : last ≠ .plain '\\') (unclosed : ']' ∉ last.chars ++ after)
    (single : opensName ['.', '='] last (ofText true after) = false) :
    readMember options (glyph.chars ++ '-' :: (last.chars ++ after)) =
      if glyph.char ≤ last.char then .ok ([.range glyph.char last.char], after)
      else halt .rangeOutOfOrder (glyph.chars ++ '-' :: (last.chars ++ after)) := by
  rw [readMember_of_hyphen escapes noHyphen paired unclosed, readBound_of_glyph lastPaired single]

theorem readMember_of_open_range {last : Glyph} (escapes : options.escapes = true)
    (noHyphen : glyph ≠ .plain '-') (paired : glyph ≠ .plain '\\')
    (final : last = .plain '\\' → after = []) (unclosed : ']' ∉ last.chars ++ after)
    (ends : (last = .plain '\\' || opensName ['.', '='] last (ofText true after)) = true) :
    ∃ reason, readMember options (glyph.chars ++ '-' :: (last.chars ++ after)) = .error reason ∧
      Halts (last.chars ++ after) none reason := by
  rw [readMember_of_hyphen escapes noHyphen paired unclosed]
  rcases Bool.or_eq_true_iff.mp ends with mark | opens
  · obtain rfl : last = .plain '\\' := of_decide_eq_true mark
    obtain rfl := final rfl
    exact ⟨_, rfl, .inEscape rfl⟩
  · rw [readBound_of_opensName (fun later => unclosed (List.mem_append_right _ later)) opens]
    exact ⟨_, rfl, .unclosed⟩

theorem readMembers_of_error (unclosed : ']' ∉ chars)
    (failed : readMember options chars = .error reason) :
    readMembers options first chars = .error reason := by
  cases chars with
  | nil => rw [readMembers]; exact failed
  | cons c rest =>
      have stays : c ≠ ']' := fun same => unclosed (same ▸ List.mem_cons_self)
      rw [readMembers, if_neg (by simp [stays]), failed]

theorem readMembers_of_ok {members : List CharClass} (unclosed : ']' ∉ chars)
    (found : readMember options chars = .ok (members, after))
    (failed : readMembers options false after = .error reason) :
    readMembers options first chars = .error reason := by
  cases chars with
  | nil => cases found
  | cons c rest =>
      have stays : c ≠ ']' := fun same => unclosed (same ▸ List.mem_cons_self)
      rw [readMembers, if_neg (by simp [stays]), found]
      simp only [failed]

theorem Halts.mono {mistake : Option Mistake} (halts : Halts after mistake reason)
    (inside : ofText true after <:+ ofText true chars) : Halts chars mistake reason := by
  cases halts with
  | wrong mistake rest => exact .wrong mistake rest
  | unclosed => exact .unclosed
  | inEscape dangling => exact .inEscape (endsInEscape_of_suffix inside dangling)

theorem ne_hyphen_of_ofText (noEnd : ofText true after ≠ [.plain '-'])
    (noRange : ∀ last beyond, ofText true after ≠ .plain '-' :: last :: beyond)
    (later : List Char) : after ≠ '-' :: later := by
  rintro rfl
  rw [ofText_cons (by decide)] at noEnd noRange
  cases more : ofText true later with
  | nil => exact noEnd (by rw [more])
  | cons last beyond => exact noRange last beyond (by rw [more])

theorem readMembers_halts (escapes : options.escapes = true) (first : Bool)
    (unclosed : ']' ∉ chars) (read : ofText true chars = glyphs) :
    ∃ reason, readMembers options first chars = .error reason ∧
      Halts chars (rangeMistake? options.edgeHyphens glyphs) reason := by
  -- Each step over the glyphs is one member, so the induction follows the reader.
  fun_induction rangeMistake? options.edgeHyphens glyphs generalizing chars first with
  | case1 =>
      obtain rfl := eq_nil_of_ofText_eq_nil read
      exact ⟨.unclosed, by rw [readMembers], .unclosed⟩
  | case2 rest hyphens ih =>
      obtain ⟨after, rfl, rfl, -⟩ := exists_of_ofText_eq_cons read
      have found : readMember options ('-' :: after) = .ok ([.single '-'], after) := by
        simp [readMember, hyphens]
      obtain ⟨reason, failed, halts⟩ := ih false (List.not_mem_of_not_mem_cons unclosed) rfl
      refine ⟨reason, readMembers_of_ok unclosed found failed, halts.mono ?_⟩
      rw [read]
      exact List.suffix_cons _ _
  | case3 rest refused =>
      obtain ⟨after, rfl, -, -⟩ := exists_of_ofText_eq_cons read
      have failed : readMember options ('-' :: after) =
          halt .rangeWithoutLowerBound ('-' :: after) := by
        simp [readMember, refused]
      exact ⟨_, readMembers_of_error unclosed failed, .wrong _ _⟩
  | case4 glyph rest noHyphen opens =>
      obtain ⟨after, rfl, rfl, -⟩ := exists_of_ofText_eq_cons read
      have later : ']' ∉ after := fun later => unclosed (List.mem_append_right _ later)
      exact ⟨_, readMembers_of_error unclosed (readMember_of_opensName later opens), .unclosed⟩
  | case5 glyph noHyphen _ =>
      obtain ⟨last, rfl, rest, paired⟩ := exists_of_ofText_eq_cons_cons read
      obtain rfl := eq_nil_of_ofText_eq_nil rest
      have failed := readMember_of_hyphen escapes noHyphen paired (List.not_mem_nil (a := ']'))
      exact ⟨_, readMembers_of_error unclosed failed, .unclosed⟩
  | case6 glyph noHyphen last after ends _ =>
      obtain ⟨more, rfl, rest, paired⟩ := exists_of_ofText_eq_cons_cons read
      obtain ⟨beyond, rfl, rfl, final⟩ := exists_of_ofText_eq_cons rest
      obtain ⟨reason, failed, halts⟩ := readMember_of_open_range escapes noHyphen paired final
        (fun later => unclosed (by simp_all)) ends
      refine ⟨reason, readMembers_of_error unclosed failed, halts.mono ?_⟩
      rw [read, rest]
      exact List.suffix_append [glyph, .plain '-'] _
  | case7 glyph noHyphen last after goesOn inOrder _ ih =>
      obtain ⟨more, rfl, rest, paired⟩ := exists_of_ofText_eq_cons_cons read
      obtain ⟨beyond, rfl, rfl, -⟩ := exists_of_ofText_eq_cons rest
      obtain ⟨lastPaired, single⟩ : last ≠ .plain '\\' ∧
          opensName ['.', '='] last (ofText true beyond) = false := by simpa using goesOn
      have found := readMember_of_range escapes noHyphen paired lastPaired
        (fun later => unclosed (by simp_all)) single
      rw [if_pos inOrder] at found
      obtain ⟨reason, failed, halts⟩ := ih false (fun later => unclosed (by simp [later])) rfl
      refine ⟨reason, readMembers_of_ok unclosed found failed, halts.mono ?_⟩
      exact ⟨[glyph, .plain '-', last], read.symm⟩
  | case8 glyph noHyphen last after goesOn unordered _ =>
      obtain ⟨more, rfl, rest, paired⟩ := exists_of_ofText_eq_cons_cons read
      obtain ⟨beyond, rfl, rfl, -⟩ := exists_of_ofText_eq_cons rest
      obtain ⟨lastPaired, single⟩ : last ≠ .plain '\\' ∧
          opensName ['.', '='] last (ofText true beyond) = false := by simpa using goesOn
      have failed := readMember_of_range escapes noHyphen paired lastPaired
        (fun later => unclosed (by simp_all)) single
      rw [if_neg unordered] at failed
      exact ⟨_, readMembers_of_error unclosed failed, .wrong _ _⟩
  | case9 glyph noHyphen rest noEnd noRange single ih =>
      obtain ⟨after, rfl, rfl, final⟩ := exists_of_ofText_eq_cons read
      by_cases mark : glyph = .plain '\\'
      · obtain rfl := mark
        obtain rfl := final rfl
        have failed : readMember options ['\\'] = halt .danglingEscape ['\\'] := by
          simp [readMember, readBound, escapes, halt]
        exact ⟨_, readMembers_of_error unclosed failed, .inEscape rfl⟩
      · have found := readMember_of_alone escapes noHyphen mark (by simpa using single)
          (ne_hyphen_of_ofText noEnd noRange)
        obtain ⟨reason, failed, halts⟩ :=
          ih false (fun later => unclosed (List.mem_append_right _ later)) rfl
        refine ⟨reason, readMembers_of_ok unclosed found failed, halts.mono ?_⟩
        rw [read]
        exact List.suffix_cons _ _

theorem mistakeAfter?_ofText (options : Options) (c : Char) (rest : List Char) :
    mistakeAfter? options (ofText true (c :: rest)) =
      rangeMistake? options.edgeHyphens
        (ofText true (if options.negation.isNegation c then rest else c :: rest)) := by
  by_cases mark : c = '\\'
  · subst mark
    have plainMark : options.negation.isNegation '\\' = false :=
      Bool.eq_false_iff.mpr fun negates => NegationMark.ne_of_isNegation negates rfl
    cases rest <;> simp [ofText, mistakeAfter?, plainMark]
  · rw [ofText_cons mark, mistakeAfter?]
    split
    · rfl
    · rw [ofText_cons mark]

theorem read_halts (escapes : options.escapes = true) (unclosed : ']' ∉ chars) :
    ∃ reason, read options chars = .error reason ∧
      Halts chars (mistakeAfter? options (ofText true chars)) reason := by
  cases chars with
  | nil => exact ⟨.unclosed, rfl, .unclosed⟩
  | cons c rest =>
      rw [mistakeAfter?_ofText]
      have members : ']' ∉ if options.negation.isNegation c then rest else c :: rest := by
        split
        · exact List.not_mem_of_not_mem_cons unclosed
        · exact unclosed
      obtain ⟨reason, failed, halts⟩ := readMembers_halts escapes true members rfl
      refine ⟨reason, by simp only [read, failed], halts.mono ?_⟩
      split
      · next negates =>
          rw [ofText_cons (NegationMark.ne_of_isNegation negates)]
          exact List.suffix_cons _ _
      · exact List.suffix_rfl

end Bracket

end Glob
