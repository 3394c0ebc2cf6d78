import Mathlib.Data.List.Sort
import Glob.Proofs.Form

/-!
The ends at which the matcher tries to go on behind an occurrence. An alternative is tried only
where its form lets it end, and still every end of a match is tried, the longest match first.
-/

namespace Glob.Subject

/-- The ends of what the alternatives match from `start` on, in the order in which the matcher goes
on from them. -/
def continuations (subject : Subject) (alternatives : List (List Piece)) (start stop : Nat) :
    List Nat :=
  alternatives.flatMap fun alternative =>
    (subject.candidateEnds alternative start stop).filter (subject.acceptsWindow alternative start)

variable {subject : Subject} {alternatives : List (List Piece)} {alternative : List Piece}
  {start last stop : Nat}

theorem acceptsOnce_eq_any {α : Type} {pieces : α → List Piece} {options : List α}
    {goal : Nat → Bool} :
    subject.acceptsOnce pieces options (judged subject.acceptsWindow pieces) goal start stop =
      (subject.continuations (options.map pieces) start stop).any goal := by
  simp [acceptsOnce, possibleOccurrences, continuations, judged, List.any_flatMap, List.flatMap_map,
    List.any_filter, Function.comp_def]

theorem positions_reverse_pairwise (first last : Nat) :
    (positions first last).reverse.Pairwise (· > ·) := by
  rw [List.pairwise_reverse]
  exact List.pairwise_lt_range'

theorem candidateEnds_pairwise (subject : Subject) (alternative : List Piece) (start stop : Nat) :
    (subject.candidateEnds alternative start stop).Pairwise (· > ·) := by
  rw [candidateEnds]
  cases Piece.matchLength? alternative with
  | some length =>
      dsimp only
      split
      · exact List.pairwise_singleton _ _
      · exact List.Pairwise.nil
  | none =>
      dsimp only
      split
      · exact positions_reverse_pairwise start stop
      · exact positions_reverse_pairwise start _

/-- No match is lost where only the ends that fit the form of the alternative are tried. -/
theorem filter_candidateEnds (inside : start ≤ stop) :
    (subject.candidateEnds alternative start stop).filter
        (subject.acceptsWindow alternative start) =
      (positions start stop).reverse.filter (subject.acceptsWindow alternative start) := by
  apply ((subject.candidateEnds_pairwise alternative start stop).filter _).eq_of_mem_iff
    ((positions_reverse_pairwise start stop).filter _)
  intro last
  rw [List.mem_filter, List.mem_filter, List.mem_reverse, mem_positions,
    mem_candidateEnds inside]
  constructor
  · intro ⟨⟨low, bound, _⟩, accepted⟩
    exact ⟨⟨low, bound⟩, accepted⟩
  · intro ⟨⟨low, bound⟩, accepted⟩
    exact ⟨⟨low, bound, fitsForm_of_accepts low accepted⟩, accepted⟩

theorem continuations_eq (inside : start ≤ stop) :
    subject.continuations alternatives start stop =
      alternatives.flatMap fun alternative =>
        (positions start stop).reverse.filter (subject.acceptsWindow alternative start) := by
  simp only [continuations, filter_candidateEnds inside]

theorem count_filter_positions (holds : Nat → Bool) :
    ((positions start stop).reverse.filter holds).count last =
      if (start ≤ last ∧ last ≤ stop) ∧ holds last = true then 1 else 0 := by
  have distinct : (positions start stop).reverse.Nodup :=
    List.nodup_reverse.mpr (positions_nodup start stop)
  rw [(distinct.filter holds).count]
  simp only [List.mem_filter, List.mem_reverse, mem_positions]

theorem count_continuations (inside : start ≤ stop) :
    (subject.continuations alternatives start stop).count last =
      if start ≤ last ∧ last ≤ stop then
        alternatives.countP fun alternative => subject.acceptsWindow alternative start last
      else 0 := by
  rw [continuations_eq inside]
  induction alternatives with
  | nil => simp
  | cons first rest ih =>
      rw [List.flatMap_cons, List.count_append, ih, count_filter_positions, List.countP_cons]
      by_cases between : start ≤ last ∧ last ≤ stop
      · simp only [between, true_and, if_true, Nat.add_comm]
      · simp only [between, false_and, if_false]

/-- The ends behind which the matcher goes on are all ends of what the alternatives match, each as
often as there are alternatives that match up to it, and for each alternative the longest match
first. For a match has the length that the form of its sequence fixes, and no separator where the
form excludes it. -/
theorem continuations_exact (subject : Subject) (alternatives : List (List Piece))
    (start stop : Nat) (inside : start ≤ stop) :
    (∀ goal : Nat → Bool,
      subject.acceptsOnce id alternatives (judged subject.acceptsWindow id) goal start stop =
        (subject.continuations alternatives start stop).any goal) ∧
    subject.continuations alternatives start stop =
      alternatives.flatMap (fun alternative =>
        (positions start stop).reverse.filter (subject.acceptsWindow alternative start)) ∧
    (∀ last, (subject.continuations alternatives start stop).count last =
      if start ≤ last ∧ last ≤ stop then
        alternatives.countP fun alternative => subject.acceptsWindow alternative start last
      else 0) ∧
    (∀ alternative, (subject.continuations [alternative] start stop).Pairwise (· > ·)) ∧
    ∀ pieces, subject.acceptsWindow pieces start stop = true →
      (∀ length, Piece.matchLength? pieces = some length → stop = start + length) ∧
        (Piece.maySpanComponents subject.options pieces = false → subject.Unbroken start stop) := by
  refine ⟨fun goal => ?_, continuations_eq inside, fun last => count_continuations inside, ?_, ?_⟩
  · rw [acceptsOnce_eq_any, List.map_id]
  · intro alternative
    rw [continuations_eq inside, List.flatMap_singleton]
    exact (positions_reverse_pairwise start stop).filter _
  · intro pieces accepted
    exact ⟨fun length fixes => length_of_accepts fixes inside accepted,
      fun stays => unbroken_of_accepts stays inside accepted⟩

theorem continuations_exact_repeated :
    let subject : Subject := ⟨#['a', 'b', '/', 'c'], {}⟩
    let alternatives : List (List Piece) :=
      [[.star], [.list .exactlyOne [[.literal ['a', 'b']], [.anyChar, .anyChar]]], [.globstar],
        [.star]]
    0 ≤ 4 ∧ subject.continuations alternatives 0 4 = [2, 1, 0, 2, 4, 3, 2, 1, 0, 2, 1, 0] ∧
      (subject.continuations alternatives 0 4).count 2 =
        alternatives.countP fun alternative => subject.acceptsWindow alternative 0 2 :=
  ⟨Nat.zero_le 4, by decide +kernel,
    ((continuations_exact _ _ 0 4 (Nat.zero_le 4)).2.2.1 2).trans (if_pos (by decide))⟩

end Glob.Subject
