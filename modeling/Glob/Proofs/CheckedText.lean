import Mathlib.Data.List.Induction
import Glob.Match
import Glob.Proofs.Checked
import Glob.Proofs.Window

/-!
Reading a text with every access checked. A character is read only before the end of the window
that is matched; where the window lies in the text, nothing is read out of range.
-/

namespace Glob

theorem Subject.literalAt_concat (subject : Subject) (text : List Char) (c : Char) (i : Nat) :
    subject.literalAt (text ++ [c]) i =
      (subject.literalAt text i && subject.text[i + text.length]? == some c) := by
  induction text generalizing i with
  | nil => simp [literalAt]
  | cons first rest ih =>
      have next : i + 1 + rest.length = i + (first :: rest).length := by
        rw [List.length_cons]
        omega
      rw [List.cons_append, literalAt, literalAt, ih, next, Bool.and_assoc]

namespace Checked

section

variable (subject : Subject) (stop : Nat)

def charAt (i : Nat) : Checked Char :=
  if i < stop then element subject.text.toList i else .error (.position i)

def isSeparatorAt (i : Nat) : Checked Bool := do
  return subject.options.isSeparator (← charAt subject stop i)

def atSegmentStart (i : Nat) : Checked Bool :=
  pure (i == 0) <||> do isSeparatorAt subject stop (← difference i 1)

def isHiddenPeriod (i : Nat) : Checked Bool :=
  pure subject.options.explicitLeadingPeriods <&&>
    (do return (← charAt subject stop i) == '.') <&&> atSegmentStart subject stop i

def isPlainAt (i : Nat) : Checked Bool := do
  return !(← isSeparatorAt subject stop i <||> isHiddenPeriod subject stop i)

def isMemberAt (members : List CharClass) (i : Nat) : Checked Bool := do
  let c ← charAt subject stop i
  return members.any (·.contains subject.options.baseLetterRanges c)

def standsAt (i : Nat) : Piece → Checked Bool
  | .separator => isSeparatorAt subject stop i
  | .anyChar => isPlainAt subject stop i
  | .bracket members negated =>
    isPlainAt subject stop i <&&> do return (← isMemberAt subject stop members i) != negated
  | .literal _ | .star | .globstar | .list .. => return false

def literalAfter : List Char → Nat → Checked (Option Nat)
  | [], i => return some i
  | c :: rest, i => do
    if stop ≤ i then return none
    else if (← charAt subject stop i) != c then return none
    else literalAfter rest (i + 1)

/-- Where the characters begin that have to stand before `i`, the last of them given first. -/
def literalBefore (start : Nat) : List Char → Nat → Checked (Option Nat)
  | [], i => return some i
  | c :: rest, i => do
    if i ≤ start then return none
    else if (← charAt subject stop (← difference i 1)) != c then return none
    else literalBefore start rest (← difference i 1)

def advance (start : Nat) : Piece → Checked (Option Nat)
  | .literal text => literalAfter subject stop text start
  | piece => do
    if ← pure (decide (start < stop)) <&&> standsAt subject stop start piece then
      return some (start + 1)
    else return none

def retreat (start : Nat) : Piece → Checked (Option Nat)
  | .literal text => literalBefore subject stop start text.reverse stop
  | piece => do
    if ← pure (decide (start < stop)) <&&> do
        standsAt subject stop (← difference stop 1) piece then
      return some (← difference stop 1)
    else return none

def componentEnd (start : Nat) : Checked Nat := do
  return ((← (List.range' start (stop - start)).findM? (isSeparatorAt subject stop)).getD stop)

/-- The ends that an alternative read from `start` could have by its form, the longest first. -/
def candidateEnds (alternative : List Piece) (start : Nat) : Checked (List Nat) := do
  match Piece.matchLength? alternative with
  | some length => return (positions (start + length) (min (start + length) stop)).reverse
  | none =>
    if Piece.maySpanComponents subject.options alternative then
      return (positions start stop).reverse
    else
      return (positions start (min (← componentEnd subject stop start) stop)).reverse

def possibleOccurrences (alternatives : List (List Piece)) (start : Nat) :
    Checked (List (Occurrence (List Piece))) := do
  let ends ← alternatives.mapM fun alternative => do
    return (← candidateEnds subject stop alternative start).map fun last =>
      Occurrence.mk alternative start last
  return ends.flatten

end

section

variable {subject : Subject} {start stop i : Nat}

theorem exists_charAt (within : stop ≤ subject.text.size) (inside : i < stop) :
    ∃ c, subject.text[i]? = some c ∧ charAt subject stop i = .ok c := by
  have present : i < subject.text.size := Nat.lt_of_lt_of_le inside within
  refine ⟨subject.text[i], Array.getElem?_eq_getElem present, ?_⟩
  simp [charAt, inside, element, present]

theorem isSeparatorAt_eq (within : stop ≤ subject.text.size) (inside : i < stop) :
    isSeparatorAt subject stop i = .ok (subject.isSeparatorAt i) := by
  obtain ⟨c, here, read⟩ := exists_charAt within inside
  rw [isSeparatorAt, read, Subject.isSeparatorAt, here]
  rfl

theorem atSegmentStart_eq (within : stop ≤ subject.text.size) (inside : i ≤ stop) :
    atSegmentStart subject stop i = .ok (subject.atSegmentStart i) := by
  apply or_eq_ok rfl
  intro later
  have positive : 0 < i := Nat.pos_of_ne_zero (by simpa using later)
  rw [difference_eq_ok positive, ok_bind, isSeparatorAt_eq within (by omega)]

theorem isHiddenPeriod_eq (within : stop ≤ subject.text.size) (inside : i < stop) :
    isHiddenPeriod subject stop i = .ok (subject.isHiddenPeriod i) := by
  obtain ⟨c, here, read⟩ := exists_charAt within inside
  rw [Subject.isHiddenPeriod, Bool.and_assoc, here]
  apply and_eq_ok rfl
  intro _
  apply and_eq_ok
  · rw [read]
    rfl
  · intro _
    exact atSegmentStart_eq within (Nat.le_of_lt inside)

theorem isPlainAt_eq (within : stop ≤ subject.text.size) (inside : i < stop) :
    isPlainAt subject stop i = .ok (subject.isPlainAt i) := by
  have present : i < subject.text.size := Nat.lt_of_lt_of_le inside within
  have either : (isSeparatorAt subject stop i <||> isHiddenPeriod subject stop i) =
      .ok (subject.isSeparatorAt i || subject.isHiddenPeriod i) :=
    or_eq_ok (isSeparatorAt_eq within inside) fun _ => isHiddenPeriod_eq within inside
  rw [isPlainAt, either, ok_bind, Bool.not_or]
  simp [Subject.isPlainAt, present, pure_eq_ok]

theorem isMemberAt_eq (within : stop ≤ subject.text.size) (inside : i < stop)
    (members : List CharClass) :
    isMemberAt subject stop members i = .ok (subject.isMemberAt members i) := by
  obtain ⟨c, here, read⟩ := exists_charAt within inside
  rw [isMemberAt, read, Subject.isMemberAt, here]
  rfl

theorem standsAt_eq {piece : Piece} (within : stop ≤ subject.text.size) (inside : i < stop)
    (single : ∀ text, piece ≠ .literal text) :
    standsAt subject stop i piece = .ok (subject.standsAt i piece) := by
  cases piece with
  | separator => exact isSeparatorAt_eq within inside
  | anyChar => exact isPlainAt_eq within inside
  | bracket members negated =>
      apply and_eq_ok (isPlainAt_eq within inside)
      intro _
      rw [isMemberAt_eq within inside]
      rfl
  | literal text => exact absurd rfl (single text)
  | star | globstar | list => rfl

theorem literalAfter_eq (within : stop ≤ subject.text.size) (inside : i ≤ stop)
    (text : List Char) :
    literalAfter subject stop text i =
      .ok (if i + text.length ≤ stop ∧ subject.literalAt text i = true then
        some (i + text.length) else none) := by
  induction text generalizing i with
  | nil => simp [literalAfter, Subject.literalAt, inside, pure_eq_ok]
  | cons c rest ih =>
      rw [literalAfter, List.length_cons, Subject.literalAt]
      by_cases full : stop ≤ i
      · have longer : ¬i + (rest.length + 1) ≤ stop := by omega
        simp [full, longer, pure_eq_ok]
      obtain ⟨d, here, read⟩ := exists_charAt within (Nat.lt_of_not_le full)
      rw [if_neg full, read, ok_bind, here]
      by_cases same : d = c
      · have length : i + 1 + rest.length = i + (rest.length + 1) := by omega
        simp [same, ih (Nat.lt_of_not_le full), length]
      · simp [same, pure_eq_ok]

theorem literalBefore_eq (within : stop ≤ subject.text.size) (low : start ≤ i) (bound : i ≤ stop)
    (text : List Char) :
    literalBefore subject stop start text.reverse i =
      .ok (if start + text.length ≤ i ∧ subject.literalAt text (i - text.length) = true then
        some (i - text.length) else none) := by
  induction text using List.reverseRecOn generalizing i with
  | nil => simp [literalBefore, Subject.literalAt, low, pure_eq_ok]
  | append_singleton text c ih =>
      rw [List.reverse_concat, literalBefore, Subject.literalAt_concat, List.length_append,
        List.length_singleton]
      by_cases empty : i ≤ start
      · have longer : ¬start + (text.length + 1) ≤ i := by omega
        simp [empty, longer, pure_eq_ok]
      obtain ⟨d, here, read⟩ := exists_charAt within (show i - 1 < stop by omega)
      rw [if_neg empty, difference_eq_ok (show 1 ≤ i by omega), ok_bind, read, ok_bind]
      by_cases fits : start + (text.length + 1) ≤ i
      · have last : i - (text.length + 1) + text.length = i - 1 := by omega
        have first : i - 1 - text.length = i - (text.length + 1) := by omega
        have shorter : start + text.length ≤ i - 1 := by omega
        rw [last, here]
        by_cases same : d = c
        · simp [same, ih (show start ≤ i - 1 by omega) (show i - 1 ≤ stop by omega), first, shorter,
            fits]
        · simp [same, pure_eq_ok]
      · have longer : ¬start + text.length ≤ i - 1 := by omega
        by_cases same : d = c
        · simp [same, ih (show start ≤ i - 1 by omega) (show i - 1 ≤ stop by omega), longer, fits]
        · simp [same, fits, pure_eq_ok]

theorem advance_single {piece : Piece} (within : stop ≤ subject.text.size)
    (single : ∀ text, piece ≠ .literal text) :
    advance subject stop start piece =
      .ok (if start + 1 ≤ stop ∧ subject.standsAt start piece = true then
        some (start + 1) else none) := by
  have stands : (pure (decide (start < stop)) <&&> standsAt subject stop start piece) =
      .ok (decide (start < stop) && subject.standsAt start piece) :=
    and_eq_ok rfl fun inside => standsAt_eq within (of_decide_eq_true inside) single
  rw [advance, stands, ok_bind]
  · by_cases both : start + 1 ≤ stop ∧ subject.standsAt start piece = true
    · simp [both, Nat.lt_of_succ_le both.1, pure_eq_ok]
    · rw [if_neg both, if_neg (by simpa [Nat.succ_le_iff] using both)]
      rfl
  · exact single

theorem advance_eq {piece : Piece} {extent : Nat} (takes : piece.extent? = some extent)
    (within : stop ≤ subject.text.size) (inside : start ≤ stop) :
    advance subject stop start piece =
      .ok (if start + extent ≤ stop ∧ subject.standsAt start piece = true then
        some (start + extent) else none) := by
  cases piece with
  | literal text =>
      cases takes
      exact literalAfter_eq within inside text
  | separator | anyChar | bracket =>
      cases takes
      exact advance_single within (fun _ => Piece.noConfusion)
  | star | globstar | list => cases takes

theorem retreat_single {piece : Piece} (within : stop ≤ subject.text.size)
    (single : ∀ text, piece ≠ .literal text) :
    retreat subject stop start piece =
      .ok (if start + 1 ≤ stop ∧ subject.standsAt (stop - 1) piece = true then
        some (stop - 1) else none) := by
  have stands : (pure (decide (start < stop)) <&&> do
        standsAt subject stop (← difference stop 1) piece) =
      .ok (decide (start < stop) && subject.standsAt (stop - 1) piece) := by
    apply and_eq_ok rfl
    intro inside
    have positive := Nat.lt_of_le_of_lt (Nat.zero_le start) (of_decide_eq_true inside)
    rw [difference_eq_ok positive, ok_bind]
    exact standsAt_eq within (Nat.sub_one_lt_of_lt positive) single
  rw [retreat, stands, ok_bind]
  · by_cases both : start + 1 ≤ stop ∧ subject.standsAt (stop - 1) piece = true
    · have positive : 1 ≤ stop := Nat.le_trans (Nat.le_add_left 1 start) both.1
      simp [both, Nat.lt_of_succ_le both.1, difference_eq_ok positive, pure_eq_ok]
    · rw [if_neg both, if_neg (by simpa [Nat.succ_le_iff] using both)]
      rfl
  · exact single

theorem retreat_eq {piece : Piece} {extent : Nat} (takes : piece.extent? = some extent)
    (within : stop ≤ subject.text.size) (inside : start ≤ stop) :
    retreat subject stop start piece =
      .ok (if start + extent ≤ stop ∧ subject.standsAt (stop - extent) piece = true then
        some (stop - extent) else none) := by
  cases piece with
  | literal text =>
      cases takes
      exact literalBefore_eq within inside (Nat.le_refl stop) text
  | separator | anyChar | bracket =>
      cases takes
      exact retreat_single within (fun _ => Piece.noConfusion)
  | star | globstar | list => cases takes

theorem componentEnd_eq (within : stop ≤ subject.text.size) :
    componentEnd subject stop start = .ok (subject.componentEnd start stop) := by
  have found : (List.range' start (stop - start)).findM? (isSeparatorAt subject stop) =
      .ok ((List.range' start (stop - start)).find? subject.isSeparatorAt) := by
    apply findM?_eq_ok
    intro i member
    have bounds := List.mem_range'_1.mp member
    exact isSeparatorAt_eq within (by omega)
  rw [componentEnd, found]
  rfl

theorem candidateEnds_eq (within : stop ≤ subject.text.size) (inside : start ≤ stop)
    (alternative : List Piece) :
    candidateEnds subject stop alternative start =
      .ok (subject.candidateEnds alternative start stop) := by
  rw [candidateEnds, Subject.candidateEnds]
  cases Piece.matchLength? alternative with
  | some length =>
      by_cases fits : start + length ≤ stop
      · simp [fits, positions, pure_eq_ok]
      · have none : stop + 1 - (start + length) = 0 := by omega
        have below : min (start + length) stop = stop := by omega
        simp [fits, positions, none, below, pure_eq_ok]
  | none =>
      have low : start ≤ subject.componentEnd start stop :=
        (Subject.le_componentEnd_iff inside (Nat.le_refl start)).mpr
          ⟨inside, Subject.unbroken_self start⟩
      have bound := ((Subject.le_componentEnd_iff inside low).mp (Nat.le_refl _)).1
      cases Piece.maySpanComponents subject.options alternative with
      | true => rfl
      | false =>
          simp only [Bool.false_eq_true, if_false, componentEnd_eq within, ok_bind,
            Nat.min_eq_left bound, pure_eq_ok]

theorem possibleOccurrences_eq (within : stop ≤ subject.text.size) (inside : start ≤ stop)
    (alternatives : List (List Piece)) :
    possibleOccurrences subject stop alternatives start =
      .ok (subject.possibleOccurrences id alternatives stop start) := by
  have read : alternatives.mapM (fun alternative => do
        return (← candidateEnds subject stop alternative start).map fun last =>
          Occurrence.mk alternative start last) =
      .ok (alternatives.map fun alternative =>
        (subject.candidateEnds alternative start stop).map fun last =>
          Occurrence.mk alternative start last) := by
    apply mapM_eq_ok
    intro alternative _
    rw [candidateEnds_eq within inside]
    rfl
  rw [possibleOccurrences, read]
  rfl

end

end Checked

end Glob
