import Glob.Match

/-! What the helpers of the matcher say about the positions of a window. -/

namespace Glob

@[simp]
theorem mem_positions {first last i : Nat} : i ∈ positions first last ↔ first ≤ i ∧ i ≤ last := by
  simp only [positions, List.mem_range'_1]
  omega

theorem positions_nodup (first last : Nat) : (positions first last).Nodup :=
  List.nodup_range'

theorem exists_within_congr {start stop : Nat} {left right : Nat → Prop}
    (same : ∀ i, start ≤ i → i ≤ stop → (left i ↔ right i)) :
    (∃ i, start ≤ i ∧ i ≤ stop ∧ left i) ↔ ∃ i, start ≤ i ∧ i ≤ stop ∧ right i := by
  apply exists_congr
  intro i
  apply and_congr_right
  intro low
  apply and_congr_right
  intro bound
  exact same i low bound

namespace Subject

variable {subject : Subject} {start last stop : Nat}

/-- No separator stands from `start` on and before `last`. -/
def Unbroken (subject : Subject) (start last : Nat) : Prop :=
  ∀ i, start ≤ i → i < last → subject.isSeparatorAt i = false

theorem unbroken_self (start : Nat) : subject.Unbroken start start := by
  intro i low high
  omega

theorem unbroken_append (left : subject.Unbroken start last)
    (right : subject.Unbroken last stop) : subject.Unbroken start stop := by
  intro i low high
  by_cases before : i < last
  · exact left i low before
  · exact right i (Nat.le_of_not_lt before) high

theorem le_componentEnd_iff (inside : start ≤ stop) (_low : start ≤ last) :
    last ≤ subject.componentEnd start stop ↔ last ≤ stop ∧ subject.Unbroken start last := by
  unfold componentEnd
  cases found : (List.range' start (stop - start)).find? subject.isSeparatorAt with
  | none =>
      have clear := List.find?_eq_none.mp found
      simp only [Option.getD_none]
      constructor
      · intro bound
        refine ⟨bound, fun i above below => ?_⟩
        simpa using clear i (List.mem_range'_1.mpr (by omega))
      · exact fun both => both.1
  | some first =>
      obtain ⟨separates, index, within, same, before⟩ := List.find?_eq_some_iff_getElem.mp found
      simp only [List.length_range', List.getElem_range', Nat.one_mul] at within same before
      simp only [Option.getD_some]
      constructor
      · intro bound
        refine ⟨by omega, fun i above below => ?_⟩
        have clear := before (i - start) (by omega)
        rw [show start + (i - start) = i by omega] at clear
        simpa using clear
      · intro ⟨_, clear⟩
        apply Nat.le_of_not_lt
        intro beyond
        rw [clear first (by omega) (by omega)] at separates
        exact Bool.false_ne_true separates

theorem mem_positions_componentEnd (inside : start ≤ stop) :
    last ∈ positions start (subject.componentEnd start stop) ↔
      start ≤ last ∧ last ≤ stop ∧ subject.Unbroken start last := by
  rw [mem_positions]
  constructor
  · intro ⟨low, bound⟩
    exact ⟨low, (le_componentEnd_iff inside low).mp bound⟩
  · intro ⟨low, both⟩
    exact ⟨low, (le_componentEnd_iff inside low).mpr both⟩

theorem acceptsTrailingGlobstar_needs
    (needs : subject.options.trailingGlobstarNeedsComponent = true) :
    subject.acceptsTrailingGlobstar start stop = true ↔
      start + 2 ≤ stop ∧ subject.isSeparatorAt start = true := by
  simp only [acceptsTrailingGlobstar, needs, if_true, Bool.and_eq_true, decide_eq_true_eq]
  constructor
  · intro trails
    exact ⟨by omega, trails.1.2⟩
  · intro trails
    exact ⟨⟨by omega, trails.2⟩, by omega⟩

theorem acceptsTrailingGlobstar_free
    (free : subject.options.trailingGlobstarNeedsComponent = false) :
    subject.acceptsTrailingGlobstar start stop = true ↔
      start = stop ∨ start < stop ∧ subject.isSeparatorAt start = true := by
  simp [acceptsTrailingGlobstar, free]

/-- What the form of an alternative alone says about its matches from `start` to `last`. -/
def FitsForm (subject : Subject) (alternative : List Piece) (start last : Nat) : Prop :=
  match Piece.matchLength? alternative with
  | some length => last = start + length
  | none =>
    Piece.maySpanComponents subject.options alternative = false → subject.Unbroken start last

theorem mem_candidateEnds {alternative : List Piece} (inside : start ≤ stop) :
    last ∈ subject.candidateEnds alternative start stop ↔
      start ≤ last ∧ last ≤ stop ∧ subject.FitsForm alternative start last := by
  unfold candidateEnds FitsForm
  cases Piece.matchLength? alternative with
  | some length =>
      by_cases fits : start + length ≤ stop
      · simp only [if_pos fits, List.mem_singleton]
        omega
      · simp only [if_neg fits, List.not_mem_nil, false_iff]
        omega
  | none =>
      cases spans : Piece.maySpanComponents subject.options alternative with
      | true => simp
      | false =>
          simp only [Bool.false_eq_true, if_false, List.mem_reverse, forall_const]
          exact mem_positions_componentEnd inside

end Subject

end Glob
