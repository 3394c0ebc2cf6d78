import Glob.Options.Dialect
import Glob.Pattern
import Glob.Proofs.Form
import Glob.Proofs.Locality

/-!
Laws of lists: a negated list is the complement of the list, and a list that repeats is one
occurrence followed by any number of them, if that one is not empty. An empty occurrence is lost,
though bash and fnmatch match it.
-/

namespace Glob

open Relation (ReflTransGen TransGen)

namespace Piece

def lists (front : List (Quantifier × List (List Piece))) : List Piece :=
  front.map fun entry => list entry.1 entry.2

theorem endsInGlobstar_lists_append (front : List (Quantifier × List (List Piece)))
    (rest : List Piece) : endsInGlobstar (lists front ++ rest) = endsInGlobstar rest := by
  induction front with
  | nil => rfl
  | cons entry front ih => exact (endsInGlobstar_cons (by simp)).trans ih

end Piece

namespace Subject

variable {subject : Subject} {front : List (Quantifier × List (List Piece))} {rest : List Piece}
  {last : Piece} {alternatives : List (List Piece)} {quantifier : Quantifier}
  {start stop extent : Nat} {leading : Bool}

/-- The stretches that lists in a row take one after the other. -/
def TakeInTurn (subject : Subject) :
    List (Quantifier × List (List Piece)) → Nat → Nat → Prop
  | [], start, last => start = last
  | (quantifier, alternatives) :: front, start, last =>
    ∃ i, start ≤ i ∧ i ≤ last ∧
      subject.TakesList subject.acceptsWindow alternatives quantifier start i ∧
        subject.TakeInTurn front i last

theorem takeInTurn_single (inside : start ≤ stop) :
    subject.TakeInTurn [(quantifier, alternatives)] start stop ↔
      subject.TakesList subject.acceptsWindow alternatives quantifier start stop := by
  constructor
  · intro given
    obtain ⟨i, _, _, takes, rfl⟩ := given
    exact takes
  · intro takes
    exact ⟨stop, inside, Nat.le_refl stop, takes, rfl⟩

theorem accepts_lists_of_kept (kept : Piece.fixedLast? rest leading = none)
    (inside : start ≤ stop) :
    subject.accepts (Piece.lists front ++ rest) start stop leading = true ↔
      ∃ last, start ≤ last ∧ last ≤ stop ∧ subject.TakeInTurn front start last ∧
        subject.accepts rest last stop leading = true := by
  induction front generalizing start with
  | nil =>
      constructor
      · intro accepted
        exact ⟨start, Nat.le_refl start, inside, rfl, accepted⟩
      · intro given
        obtain ⟨_, _, _, rfl, accepted⟩ := given
        exact accepted
  | cons entry front ih =>
      have keptAll : Piece.fixedLast? (Piece.lists front ++ rest) leading = none := by
        clear ih
        induction front with
        | nil => exact kept
        | cons next front ih => exact Piece.fixedLast?_open rfl ih
      refine (accepts_list keptAll inside).trans ?_
      constructor
      · intro given
        obtain ⟨i, low, bound, takes, later⟩ := given
        obtain ⟨last, beyond, within, taken, held⟩ := (ih bound).mp later
        exact ⟨last, Nat.le_trans low beyond, within, ⟨i, low, beyond, takes, taken⟩, held⟩
      · intro given
        obtain ⟨last, _, within, ⟨i, low, beyond, takes, taken⟩, held⟩ := given
        have bound := Nat.le_trans beyond within
        exact ⟨i, low, bound, takes, (ih bound).mpr ⟨last, beyond, within, taken, held⟩⟩

theorem accepts_lists_concat (nonempty : front ≠ []) (takes : last.extent? = some extent) :
    subject.accepts (Piece.lists front ++ (rest ++ [last])) start stop false = true ↔
      (last = .separator ∧ Piece.endsInGlobstar rest = true ∧
          subject.accepts (Piece.lists front ++ rest.dropLast) start stop false = true) ∨
        start + extent ≤ stop ∧ subject.standsAt (stop - extent) last = true ∧
          subject.accepts (Piece.lists front ++ rest) start (stop - extent) false = true := by
  cases front with
  | nil => exact absurd rfl nonempty
  | cons entry front =>
      have single : ¬(Piece.lists (entry :: front) ++ rest = [.globstar] ∧ last = .separator) :=
        fun same => Piece.noConfusion (List.cons.inj same.1).1
      have ends := Piece.endsInGlobstar_lists_append (entry :: front) rest
      have cut : subject.accepts (.list entry.1 entry.2 :: (Piece.lists front ++ rest) ++ [last])
          start stop false = true ↔ _ :=
        accepts_open_concat rfl takes single
      rw [← List.append_assoc]
      refine cut.trans (or_congr_left (and_congr_right fun _ => ?_))
      refine (and_congr_left' (Bool.eq_iff_iff.mp ends)).trans (and_congr_right fun final => ?_)
      rw [← List.dropLast_append_of_ne_nil (Piece.ne_nil_of_endsInGlobstar final)]
      rfl

/-- Lists match no more than others do together, in front of anything, if every stretch that they
take is taken by some of the others: what stands behind loses its end in the same way. -/
theorem exists_accepts_of_takeInTurn {others : List (Quantifier × List (List Piece)) → Prop}
    (nonempty : front ≠ []) (nonemptyOther : ∀ other, others other → other ≠ [])
    (covered : ∀ last, start ≤ last → subject.TakeInTurn front start last →
      ∃ other, others other ∧ subject.TakeInTurn other start last)
    (inside : start ≤ stop)
    (accepted : subject.accepts (Piece.lists front ++ rest) start stop leading = true) :
    ∃ other, others other ∧
      subject.accepts (Piece.lists other ++ rest) start stop leading = true := by
  induction rest using Piece.cut_induction leading generalizing stop with
  | kept rest found =>
      obtain ⟨last, low, bound, taken, held⟩ := (accepts_lists_of_kept found inside).mp accepted
      obtain ⟨other, present, taken⟩ := covered last low taken
      exact ⟨other, present,
        (accepts_lists_of_kept found inside).mpr ⟨last, low, bound, taken, held⟩⟩
  | cut before last extent closed takes ih ihCloser =>
      subst closed
      rcases (accepts_lists_concat nonempty takes).mp accepted with
        ⟨closes, final, held⟩ | ⟨fits, stands, held⟩
      · obtain ⟨other, present, held⟩ := ihCloser inside held
        exact ⟨other, present, (accepts_lists_concat (nonemptyOther other present) takes).mpr
          (.inl ⟨closes, final, held⟩)⟩
      · obtain ⟨other, present, held⟩ := ih (by omega) held
        exact ⟨other, present, (accepts_lists_concat (nonemptyOther other present) takes).mpr
          (.inr ⟨fits, stands, held⟩)⟩

theorem accepts_of_takeInTurn {other : List (Quantifier × List (List Piece))}
    (nonempty : front ≠ []) (nonemptyOther : other ≠ [])
    (covered : ∀ last, start ≤ last → subject.TakeInTurn front start last →
      subject.TakeInTurn other start last)
    (inside : start ≤ stop)
    (accepted : subject.accepts (Piece.lists front ++ rest) start stop leading = true) :
    subject.accepts (Piece.lists other ++ rest) start stop leading = true := by
  have only : ∀ last, start ≤ last → subject.TakeInTurn front start last →
      ∃ same, same = other ∧ subject.TakeInTurn same start last :=
    fun last low taken => ⟨other, rfl, covered last low taken⟩
  obtain ⟨_, rfl, held⟩ := exists_accepts_of_takeInTurn nonempty
    (by rintro _ rfl; exact nonemptyOther) only inside accepted
  exact held

theorem accepts_list_alone (clear : subject.Unbroken start stop) (inside : start ≤ stop) :
    subject.accepts [.list quantifier alternatives] start stop leading = true ↔
      subject.TakesList subject.acceptsWindow alternatives quantifier start stop := by
  have kept : Piece.fixedLast? [] leading = none := by cases leading <;> rfl
  rw [accepts_list kept inside]
  constructor
  · intro found
    obtain ⟨last, low, bound, takes, ends⟩ := found
    rcases accepts_nil.mp ends with rfl | ⟨_, separates⟩
    · exact takes
    · by_cases whole : last = stop
      · exact whole ▸ takes
      · rw [clear last low (by omega)] at separates
        cases separates
  · intro takes
    exact ⟨stop, inside, Nat.le_refl stop, takes, accepts_nil.mpr (.inl rfl)⟩

theorem accepts_negated_alone (clear : subject.Unbroken start stop) (inside : start ≤ stop) :
    subject.accepts [.list .negated alternatives] start stop leading =
      !subject.accepts [.list .exactlyOne alternatives] start stop leading := by
  apply Bool.eq_iff_iff.mpr
  rw [Bool.not_eq_true', ← Bool.not_eq_true, accepts_list_alone clear inside,
    accepts_list_alone clear inside]
  calc
    subject.TakesList subject.acceptsWindow alternatives .negated start stop ↔
        ¬TakesAny subject.acceptsWindow alternatives start stop :=
      and_iff_right clear
    _ ↔ ¬subject.TakesList subject.acceptsWindow alternatives .exactlyOne start stop :=
      not_congr (takesOnce_iff_takesAny inside).symm

theorem takesList_nothing :
    subject.TakesList subject.acceptsWindow [[]] .exactlyOne start stop ↔ start = stop := by
  constructor
  · intro takes
    obtain ⟨alternative, member, _, _, accepted⟩ := takes
    rw [List.mem_singleton.mp member] at accepted
    simpa using accepts_nil.mp accepted
  · intro same
    rw [same]
    exact ⟨[], List.mem_cons_self, Nat.le_refl stop, rfl, accepts_nil.mpr (.inl rfl)⟩

theorem takeInTurn_once_then_repeated (inside : start ≤ stop) :
    subject.TakeInTurn [(.exactlyOne, alternatives), (.zeroOrMore, alternatives)] start stop ↔
      subject.TakesList subject.acceptsWindow alternatives .oneOrMore start stop ∨
        subject.TakesOnce subject.acceptsWindow alternatives start start ∧ start = stop := by
  constructor
  · intro given
    obtain ⟨i, low, bound, taken, later⟩ := given
    have chain := (takeInTurn_single bound).mp later
    -- An empty first occurrence adds nothing to the chain, and is lost if no other one follows it.
    by_cases empty : start = i
    · subst empty
      rcases Relation.reflTransGen_iff_eq_or_transGen.mp chain with same | longer
      · exact .inr ⟨taken, same.symm⟩
      · exact .inl longer
    · exact .inl (.head' ⟨Nat.lt_of_le_of_ne low empty, taken⟩ chain)
  · intro given
    rcases given with longer | ⟨empty, rfl⟩
    · obtain ⟨i, first, chain⟩ := TransGen.head'_iff.mp longer
      have bound := le_of_chain chain
      exact ⟨i, Nat.le_of_lt first.1, bound, first.2, (takeInTurn_single bound).mpr chain⟩
    · exact ⟨start, inside, inside, empty, (takeInTurn_single inside).mpr .refl⟩

theorem accepts_once_then_repeated_iff (inside : start ≤ stop) :
    subject.accepts (.list .exactlyOne alternatives :: .list .zeroOrMore alternatives :: rest)
        start stop leading = true ↔
      subject.accepts (.list .oneOrMore alternatives :: rest) start stop leading = true ∨
        subject.TakesOnce subject.acceptsWindow alternatives start start ∧
          subject.accepts (.list .exactlyOne [[]] :: rest) start stop leading = true := by
  have distinct (first : Quantifier × List (List Piece)) (more) : first :: more ≠ [] :=
    List.cons_ne_nil first more
  constructor
  · intro accepted
    have covered : ∀ last, start ≤ last →
        subject.TakeInTurn [(.exactlyOne, alternatives), (.zeroOrMore, alternatives)] start last →
        ∃ other, (other = [(.oneOrMore, alternatives)] ∨
            subject.TakesOnce subject.acceptsWindow alternatives start start ∧
              other = [(.exactlyOne, [[]])]) ∧
          subject.TakeInTurn other start last := by
      intro last low taken
      rcases (takeInTurn_once_then_repeated low).mp taken with longer | ⟨empty, same⟩
      · exact ⟨_, .inl rfl, (takeInTurn_single low).mpr longer⟩
      · exact ⟨_, .inr ⟨empty, rfl⟩, (takeInTurn_single low).mpr (takesList_nothing.mpr same)⟩
    obtain ⟨other, rfl | ⟨empty, rfl⟩, held⟩ := exists_accepts_of_takeInTurn (distinct _ _)
      (by rintro other (rfl | ⟨_, rfl⟩) <;> exact distinct _ _) covered inside accepted
    · exact .inl held
    · exact .inr ⟨empty, held⟩
  · intro either
    rcases either with accepted | ⟨empty, accepted⟩
    · refine accepts_of_takeInTurn (distinct (.oneOrMore, alternatives) [])
        (distinct (.exactlyOne, alternatives) [(.zeroOrMore, alternatives)]) ?_ inside accepted
      intro last low taken
      exact (takeInTurn_once_then_repeated low).mpr (.inl ((takeInTurn_single low).mp taken))
    · refine accepts_of_takeInTurn (distinct (.exactlyOne, [[]]) [])
        (distinct (.exactlyOne, alternatives) [(.zeroOrMore, alternatives)]) ?_ inside accepted
      intro last low taken
      have same := takesList_nothing.mp ((takeInTurn_single low).mp taken)
      exact (takeInTurn_once_then_repeated low).mpr (.inr ⟨empty, same⟩)

theorem accepts_then_repeated (inside : start ≤ stop)
    (accepted : subject.accepts (.list quantifier alternatives :: rest) start stop leading = true) :
    subject.accepts (.list quantifier alternatives :: .list .zeroOrMore alternatives :: rest)
      start stop leading = true := by
  refine accepts_of_takeInTurn (List.cons_ne_nil (quantifier, alternatives) [])
    (List.cons_ne_nil (quantifier, alternatives) [(.zeroOrMore, alternatives)]) ?_ inside accepted
  intro last low given
  have taken := (takeInTurn_single low).mp given
  exact ⟨last, low, Nat.le_refl last, taken, (takeInTurn_single (Nat.le_refl last)).mpr .refl⟩

end Subject

/-- Where a match of a whole text may end: at its end, or before a separator there. -/
def Options.MayReadTo (options : Options) (text : List Char) (stop : Nat) : Prop :=
  stop = text.length ∨
    options.ignoresTrailingSeparator = true ∧ text.getLast?.any options.isSeparator = true ∧
      stop = text.length - 1

theorem Options.eq_length_of_mayReadTo {options : Options} {text : List Char} {stop : Nat}
    (plain : text.getLast?.any options.isSeparator = false)
    (reads : options.MayReadTo text stop) : stop = text.length := by
  rcases reads with whole | ⟨_, separates, _⟩
  · exact whole
  · rw [plain] at separates
    cases separates

namespace Pattern

def ofSequence (options : Options) (pieces : List Piece) : Pattern where
  source := ""
  alternatives := [pieces]
  options := options

variable {options : Options} {pieces : List Piece} {alternatives : List (List Piece)}
  {text : String}

theorem accepts_ofSequence_iff : (ofSequence options pieces).accepts text = true ↔
    ∃ stop, options.MayReadTo text.toList stop ∧
      (Subject.mk text.toList.toArray options).accepts pieces 0 stop options.leadingDirectories =
        true := by
  simp only [accepts, acceptsChars, acceptsUpTo, ofSequence, List.any_cons, List.any_nil,
    Bool.or_false, Bool.or_eq_true, Bool.and_eq_true, Options.MayReadTo, or_and_right, exists_or,
    exists_eq_left, and_assoc]
  simp only [exists_and_left, exists_eq_left]

/-- A text without separators is either matched by a list or by its negation. -/
theorem accepts_negated_eq_not (plain : ∀ c ∈ text.toList, options.isSeparator c = false) :
    (ofSequence options [.list .negated alternatives]).accepts text =
      !(ofSequence options [.list .exactlyOne alternatives]).accepts text := by
  have whole (pieces : List Piece) : (ofSequence options pieces).accepts text =
      (Subject.mk text.toList.toArray options).accepts pieces 0 text.toList.length
        options.leadingDirectories := by
    have ends : text.toList.getLast?.any options.isSeparator = false := by
      rw [Option.any_eq_false]
      intro c last
      simp [plain c (List.mem_of_getLast? last)]
    simp [accepts, acceptsChars, acceptsUpTo, ofSequence, ends]
  have clear : (Subject.mk text.toList.toArray options).Unbroken 0 text.toList.length := by
    intro i _ inside
    simp [Subject.isSeparatorAt, inside, plain]
  rw [whole, whole, Subject.accepts_negated_alone clear (Nat.zero_le _)]

theorem accepts_negated_eq_not_hidden_period :
    let options : Options := { baseLetterRanges := true, leadingDirectories := true }
    let alternatives : List (List Piece) :=
      [[.star, .list .negated [[.bracket [.range 'a' 'z'] true]]], [.literal ['.'], .anyChar]]
    (∀ c ∈ ".é".toList, options.isSeparator c = false) ∧
      (ofSequence options [.list .negated alternatives]).accepts ".é" =
        !(ofSequence options [.list .exactlyOne alternatives]).accepts ".é" ∧
      (ofSequence options [.list .exactlyOne alternatives]).accepts ".é" = true :=
  have plain : ∀ c ∈ ".é".toList, Options.isSeparator
      { baseLetterRanges := true, leadingDirectories := true } c = false := by
    simp [Options.isSeparator]
  ⟨plain, accepts_negated_eq_not plain, by decide +kernel⟩

theorem accepts_list_empty_iff {quantifier : Quantifier} :
    (ofSequence options [.list quantifier alternatives]).accepts "" = true ↔
      (Subject.mk #[] options).TakesList (Subject.mk #[] options).acceptsWindow alternatives
        quantifier 0 0 := by
  calc
    (ofSequence options [.list quantifier alternatives]).accepts "" = true ↔
        (Subject.mk #[] options).accepts [.list quantifier alternatives] 0 0
          options.leadingDirectories = true := by
      simp [accepts, acceptsChars, acceptsUpTo, ofSequence]
    _ ↔ (Subject.mk #[] options).TakesList (Subject.mk #[] options).acceptsWindow alternatives
          quantifier 0 0 :=
      Subject.accepts_list_alone (Subject.unbroken_self 0) (Nat.le_refl 0)

theorem accepts_empty_iff (text : Array Char) :
    (ofSequence options [.list .exactlyOne alternatives]).accepts "" = true ↔
      (Subject.mk text options).TakesOnce (Subject.mk text options).acceptsWindow alternatives
        0 0 := by
  have agrees : (Subject.mk #[] options).AgreesBelow ⟨text, options⟩ 0 :=
    ⟨fun i inside => absurd inside (Nat.not_lt_zero i), .refl options⟩
  refine accepts_list_empty_iff.trans (Subject.takesList_congr agrees.seenAlike (Nat.le_refl 0) ?_)
  intro alternative _ i j _ low high
  obtain rfl : j = 0 := Nat.le_zero.mp high
  exact Bool.eq_iff_iff.mpr (Subject.accepts_congr agrees low)

/-- Whatever the alternatives are: also where one of them matches the empty text. -/
theorem accepts_repeated_empty :
    (ofSequence options [.list .oneOrMore alternatives]).accepts "" = false := by
  apply Bool.eq_false_iff.mpr
  intro accepted
  obtain ⟨last, first, later⟩ := TransGen.head'_iff.mp (accepts_list_empty_iff.mp accepted)
  exact Nat.not_le_of_lt first.1 (le_of_chain later)

theorem accepts_once_then_repeated_or_empty {rest : List Piece} :
    (ofSequence options
        (.list .exactlyOne alternatives :: .list .zeroOrMore alternatives :: rest)).accepts text =
          true ↔
      (ofSequence options (.list .oneOrMore alternatives :: rest)).accepts text = true ∨
        (ofSequence options [.list .exactlyOne alternatives]).accepts "" = true ∧
          (ofSequence options (.list .exactlyOne [[]] :: rest)).accepts text = true := by
  rw [accepts_empty_iff text.toList.toArray]
  simp only [accepts_ofSequence_iff, Subject.accepts_once_then_repeated_iff (Nat.zero_le _),
    and_or_left, exists_or]
  apply or_congr_right
  constructor
  · rintro ⟨stop, ends, empty, held⟩
    exact ⟨empty, stop, ends, held⟩
  · rintro ⟨empty, stop, ends, held⟩
    exact ⟨stop, ends, empty, held⟩

/-- `+(…)` is `@(…)*(…)` as long as the first occurrence is not empty. Empty occurrences are left
out, which loses nothing for `*(…)`. For `+(…)` it departs from bash and fnmatch: what `@(…)*(…)`
and `@(…)` match with an empty occurrence, that is with a list of nothing in their place, `+(…)` may
not match. -/
theorem repeated_is_once_then_repeated (options : Options) (alternatives : List (List Piece))
    (rest : List Piece) (text : String) :
    ((ofSequence options
        (.list .exactlyOne alternatives :: .list .zeroOrMore alternatives :: rest)).accepts text =
          true ↔
      (ofSequence options (.list .oneOrMore alternatives :: rest)).accepts text = true ∨
        (ofSequence options [.list .exactlyOne alternatives]).accepts "" = true ∧
          (ofSequence options (.list .exactlyOne [[]] :: rest)).accepts text = true) ∧
    ((ofSequence options (.list .exactlyOne alternatives :: rest)).accepts text = true →
      (ofSequence options (.list .oneOrMore alternatives :: rest)).accepts text = true ∨
        (ofSequence options [.list .exactlyOne alternatives]).accepts "" = true ∧
          (ofSequence options (.list .exactlyOne [[]] :: rest)).accepts text = true) := by
  refine ⟨accepts_once_then_repeated_or_empty, ?_⟩
  intro accepted
  obtain ⟨stop, ends, held⟩ := accepts_ofSequence_iff.mp accepted
  apply accepts_once_then_repeated_or_empty.mp
  exact accepts_ofSequence_iff.mpr
    ⟨stop, ends, Subject.accepts_then_repeated (Nat.zero_le stop) held⟩

theorem repeated_is_once_then_repeated_overlapping :
    let alternatives : List (List Piece) := [[.literal ['a']], [.literal ['a', 'b']], [.star]]
    let rest : List Piece := [.separator, .anyChar]
    ((ofSequence {} (.list .exactlyOne alternatives :: .list .zeroOrMore alternatives ::
        rest)).accepts "aab/c" = true ↔
      (ofSequence {} (.list .oneOrMore alternatives :: rest)).accepts "aab/c" = true ∨
        (ofSequence {} [.list .exactlyOne alternatives]).accepts "" = true ∧
          (ofSequence {} (.list .exactlyOne [[]] :: rest)).accepts "aab/c" = true) ∧
    (ofSequence {} (.list .exactlyOne alternatives :: rest)).accepts "aab/c" = true ∧
    ((ofSequence {} (.list .oneOrMore alternatives :: rest)).accepts "aab/c" = true ∨
      (ofSequence {} [.list .exactlyOne alternatives]).accepts "" = true ∧
        (ofSequence {} (.list .exactlyOne [[]] :: rest)).accepts "aab/c" = true) ∧
    (ofSequence {} (.list .exactlyOne [[]] :: rest)).accepts "aab/c" = false :=
  have law := repeated_is_once_then_repeated {}
    [[.literal ['a']], [.literal ['a', 'b']], [.star]] [.separator, .anyChar] "aab/c"
  have once : (ofSequence {} [.list .exactlyOne [[.literal ['a']], [.literal ['a', 'b']], [.star]],
      .separator, .anyChar]).accepts "aab/c" = true := by
    decide +kernel
  ⟨law.1, once, law.2 once, by decide +kernel⟩

/-- With the options of bash too, though bash finds one occurrence of `*` in the empty text. -/
theorem repeated_misses_empty_occurrence :
    compile .bash "+(*)" = .ok ⟨"+(*)", [[.list .oneOrMore [[.star]]]], .bash⟩ ∧
      (ofSequence .bash [.list .oneOrMore [[.star]]]).accepts "" = false ∧
      (ofSequence .bash [.list .exactlyOne [[.star]], .list .zeroOrMore [[.star]]]).accepts "" =
        true ∧
      (ofSequence .bash [.list .exactlyOne [[.star]]]).accepts "" = true :=
  have compiled : compile .bash "+(*)" =
      .ok ⟨"+(*)", [[.list .oneOrMore [[.star]]]], .bash⟩ := by
    cbv
  ⟨compiled, accepts_repeated_empty, by decide +kernel, by decide +kernel⟩

end Pattern

end Glob
