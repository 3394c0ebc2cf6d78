import Glob.Proofs.CheckedMatch
import Glob.Proofs.TwoEnded

/-!
The checked matcher gives the answer of the matcher. So no fault occurs in it, and what it says
does not depend on what would be read out of range.
-/

namespace Glob.Checked

open Relation (TransGen)

section

variable {subject : Subject} {holds : Occurrence (List Piece) → Checked Bool}
  {goal : Nat → Checked Bool} {reached : Nat → Bool} {alternatives : List (List Piece)}
  {start stop : Nat}

/-- What begins at `start` is judged by `Subject.acceptsWindow`. -/
def JudgesFrom (subject : Subject) (holds : Occurrence (List Piece) → Checked Bool)
    (alternatives : List (List Piece)) (start stop : Nat) : Prop :=
  ∀ alternative ∈ alternatives, ∀ i j, start ≤ i → i ≤ j → j ≤ stop →
    holds ⟨alternative, i, j⟩ = .ok (subject.acceptsWindow alternative i j)

theorem holds_eq (judges : JudgesFrom subject holds alternatives start stop) {here : Nat}
    (low : start ≤ here) (inside : here ≤ stop) {occurrence : Occurrence (List Piece)}
    (possible : occurrence ∈ subject.possibleOccurrences id alternatives stop here) :
    holds occurrence = .ok (Subject.judged subject.acceptsWindow id occurrence) := by
  obtain ⟨present, rfl, beyond, bound, _⟩ :=
    (Subject.mem_possibleOccurrences inside).mp possible
  exact judges occurrence.alternative present occurrence.start occurrence.stop low beyond bound

theorem acceptsOnce_eq (within : stop ≤ subject.text.size) (inside : start ≤ stop)
    (judges : JudgesFrom subject holds alternatives start stop)
    (known : ∀ i, start ≤ i → i ≤ stop → goal i = .ok (reached i)) :
    acceptsOnce subject holds goal alternatives start stop =
      .ok (subject.acceptsOnce id alternatives (Subject.judged subject.acceptsWindow id) reached
        start stop) := by
  rw [acceptsOnce, possibleOccurrences_eq within inside, ok_bind, Subject.acceptsOnce]
  apply anyM_eq_ok
  intro occurrence possible
  obtain ⟨_, _, low, bound, _⟩ := (Subject.mem_possibleOccurrences inside).mp possible
  exact and_eq_ok (holds_eq judges (Nat.le_refl start) inside possible) fun _ =>
    known occurrence.stop low bound

def LeadsWithin (subject : Subject) (alternatives : List (List Piece)) (stop i j : Nat) : Prop :=
  i < j ∧ j ≤ stop ∧ subject.TakesOnce subject.acceptsWindow alternatives i j

theorem transGen_leadsWithin_iff {last : Nat} :
    TransGen (LeadsWithin subject alternatives stop) start last ↔
      last ≤ stop ∧
        TransGen (fun i j => i < j ∧ subject.TakesOnce subject.acceptsWindow alternatives i j)
          start last := by
  constructor
  · intro chain
    have bounds := le_of_follows (fun _ _ step => ⟨step.1, step.2.1⟩) chain
    exact ⟨bounds.2, TransGen.mono (fun _ _ step => ⟨step.1, step.2.2⟩) _ _ chain⟩
  · intro both
    refine transChain_congr (fun i j _ _ high => ?_) both.2
    exact (and_iff_right (Nat.le_trans high both.1)).symm

theorem leadsWithin_iff {α : Type} {pieces : α → List Piece} {options : List α} {here next : Nat}
    (inside : here ≤ stop) :
    LeadsWithin subject (options.map pieces) stop here next ↔
      ∃ occurrence ∈ subject.possibleOccurrences pieces options stop here,
        Subject.judged subject.acceptsWindow pieces occurrence = true ∧ occurrence.stop = next ∧
          next ≠ here := by
  constructor
  · intro leads
    obtain ⟨further, bound, taken⟩ := leads
    obtain ⟨occurrence, possible, held, ends⟩ :=
      (Subject.takesOnce_iff_occurrence inside bound).mp taken
    exact ⟨occurrence, possible, held, ends, Nat.ne_of_gt further⟩
  · intro given
    obtain ⟨occurrence, possible, held, rfl, apart⟩ := given
    obtain ⟨_, _, low, bound, _⟩ := (Subject.mem_possibleOccurrences inside).mp possible
    have taken := (Subject.takesOnce_iff_occurrence inside bound).mpr
      ⟨occurrence, possible, held, rfl⟩
    exact ⟨Nat.lt_of_le_of_ne low apart.symm, bound, taken⟩

theorem acceptsRepeatedly_iff_leadsWithin {α : Type} {pieces : α → List Piece} {options : List α}
    (inside : start ≤ stop) :
    subject.acceptsRepeatedly pieces options (Subject.judged subject.acceptsWindow pieces) reached
        start stop = true ↔
      ∃ last, TransGen (LeadsWithin subject (options.map pieces) stop) start last ∧
        reached last = true := by
  rw [Subject.acceptsRepeatedly_iff inside]
  apply exists_congr
  intro last
  rw [transGen_leadsWithin_iff, and_assoc]
  refine and_iff_right_of_imp fun both => ?_
  exact Nat.le_of_lt (le_of_follows (fun _ _ step => ⟨step.1, step.2.1⟩)
    (transGen_leadsWithin_iff.mpr ⟨both.1, both.2.1⟩)).1

theorem acceptsRepeatedly_eq (within : stop ≤ subject.text.size) (inside : start ≤ stop)
    (judges : JudgesFrom subject holds alternatives start stop)
    (known : ∀ i, start ≤ i → i ≤ stop → goal i = .ok (reached i)) :
    acceptsRepeatedly subject holds goal alternatives start stop =
      .ok (subject.acceptsRepeatedly id alternatives (Subject.judged subject.acceptsWindow id)
        reached start stop) := by
  have offers (here : Nat) (low : start ≤ here) (bound : here ≤ stop) :
      Offers holds goal (possibleOccurrences subject stop alternatives)
        (Subject.judged subject.acceptsWindow id) reached
        (LeadsWithin subject (alternatives.map id) stop) here := by
    refine ⟨_, possibleOccurrences_eq within bound alternatives, ?_, fun _ => leadsWithin_iff bound⟩
    intro occurrence possible
    obtain ⟨_, _, beyond, final, _⟩ := (Subject.mem_possibleOccurrences bound).mp possible
    exact ⟨holds_eq judges low bound possible,
      known occurrence.stop (Nat.le_trans low beyond) final⟩
  have decided : Decides (acceptsRepeatedly subject holds goal alternatives start stop) _ :=
    decides_explore (fun _ _ step => ⟨step.1, step.2.1⟩) offers inside .initial
      (by simp only [List.length_singleton, List.length_nil]; omega)
  exact (decided.congr (acceptsRepeatedly_iff_leadsWithin inside).symm).eq_ok

theorem acceptsNegated_eq (within : stop ≤ subject.text.size) (inside : start ≤ stop)
    (judges : JudgesFrom subject holds alternatives start stop)
    (known : ∀ i, start ≤ i → i ≤ stop → goal i = .ok (reached i)) :
    acceptsNegated subject holds goal alternatives start stop =
      .ok (subject.acceptsNegated alternatives (Subject.judged subject.acceptsWindow id) reached
        start stop) := by
  rw [acceptsNegated, componentEnd_eq within, ok_bind, Subject.acceptsNegated]
  apply anyM_eq_ok
  intro last member
  obtain ⟨low, bound, _⟩ :=
    (Subject.mem_positions_componentEnd inside).mp (List.mem_reverse.mp member)
  have judged : alternatives.anyM (fun alternative => holds ⟨alternative, start, last⟩) =
      .ok (alternatives.any fun alternative =>
        Subject.judged subject.acceptsWindow id ⟨alternative, start, last⟩) := by
    apply anyM_eq_ok
    intro alternative present
    exact judges alternative present start last (Nat.le_refl start) low bound
  rw [judged, ok_bind]
  exact and_eq_ok rfl fun _ => known last low bound

theorem exists_unbroken_iff (inside : start ≤ stop) :
    (∃ last, start ≤ last ∧ last ≤ stop ∧ subject.Unbroken start last ∧ reached last = true) ↔
      reached start = true ∨
        start < stop ∧ subject.isSeparatorAt start = false ∧
          ∃ last, start + 1 ≤ last ∧ last ≤ stop ∧ subject.Unbroken (start + 1) last ∧
            reached last = true := by
  constructor
  · intro given
    obtain ⟨last, low, bound, clear, hit⟩ := given
    rcases Nat.eq_or_lt_of_le low with rfl | further
    · exact .inl hit
    · refine .inr ⟨Nat.lt_of_lt_of_le further bound, clear start (Nat.le_refl start) further, last,
        further, bound, ?_, hit⟩
      intro i beyond before
      exact clear i (Nat.le_of_succ_le beyond) before
  · intro given
    rcases given with hit | ⟨_, plain, last, low, bound, clear, hit⟩
    · exact ⟨start, Nat.le_refl start, inside, Subject.unbroken_self start, hit⟩
    · refine ⟨last, Nat.le_of_succ_le low, bound, ?_, hit⟩
      intro i beyond before
      rcases Nat.eq_or_lt_of_le beyond with rfl | further
      · exact plain
      · exact clear i further before

theorem decides_starFrom (within : stop ≤ subject.text.size) (inside : start ≤ stop)
    (known : ∀ i, start ≤ i → i ≤ stop → goal i = .ok (reached i)) :
    Decides (starFrom subject goal stop start)
      (∃ last, start ≤ last ∧ last ≤ stop ∧ subject.Unbroken start last ∧
        reached last = true) := by
  induction gap : stop - start using Nat.strongRecOn generalizing start with
  | _ gap ih =>
      rw [exists_unbroken_iff inside, starFrom]
      apply (decides_of_eq_ok (known start (Nat.le_refl start) inside)).or
      intro _
      by_cases ends : start = stop
      · rw [if_pos (beq_iff_eq.mpr ends)]
        exact ⟨false, rfl, by simp [ends]⟩
      have further := Nat.lt_of_le_of_ne inside ends
      rw [if_neg (by simpa using ends), isSeparatorAt_eq within further, ok_bind, if_pos further]
      cases separates : subject.isSeparatorAt start with
      | true => exact ⟨false, rfl, by simp⟩
      | false =>
          have later := ih (stop - (start + 1)) (by omega) further
            (fun i low bound => known i (Nat.le_of_succ_le low) bound) rfl
          exact later.congr (by simp [further])

end

section

variable {subject : Subject} {call again : List Piece → Nat → Nat → Bool → Checked Bool}
  {pieces rest : List Piece} {piece last : Piece} {start stop extent : Nat} {leading : Bool}

/-- Calls for fewer than `bound` pieces give the answer of the matcher. -/
def AnswersBelow (subject : Subject) (again : List Piece → Nat → Nat → Bool → Checked Bool)
    (bound : Nat) : Prop :=
  ∀ pieces start stop leading, Piece.count pieces < bound → start ≤ stop →
    stop ≤ subject.text.size →
    again pieces start stop leading = .ok (subject.accepts pieces start stop leading)

theorem answersBelow_zero : AnswersBelow subject again 0 :=
  fun _ _ _ _ fewer => absurd fewer (Nat.not_lt_zero _)

theorem AnswersBelow.mono {bound lower : Nat} (answers : AnswersBelow subject again bound)
    (below : lower ≤ bound) : AnswersBelow subject again lower :=
  fun pieces start stop leading fewer =>
    answers pieces start stop leading (Nat.lt_of_lt_of_le fewer below)

theorem AnswersBelow.decides {bound : Nat} (answers : AnswersBelow subject again bound)
    (fewer : Piece.count pieces < bound) (inside : start ≤ stop)
    (within : stop ≤ subject.text.size) :
    Decides (again pieces start stop leading)
      (subject.accepts pieces start stop leading = true) :=
  decides_of_eq_ok (answers pieces start stop leading fewer inside within)

theorem separated_eq (within : stop ≤ subject.text.size) :
    (pure (decide (start < stop)) <&&> isSeparatorAt subject stop start) =
      .ok (decide (start < stop) && subject.isSeparatorAt start) :=
  and_eq_ok rfl fun inside => isSeparatorAt_eq within (of_decide_eq_true inside)

theorem acceptsTrailing_eq (within : stop ≤ subject.text.size) :
    acceptsSeparatorGlobstar subject again [.separator, .globstar] start stop leading =
      .ok (subject.acceptsTrailingGlobstar start stop) := by
  rw [acceptsSeparatorGlobstar, separated_eq within, ok_bind, Subject.acceptsTrailingGlobstar]
  cases subject.options.trailingGlobstarNeedsComponent with
  | false => rfl
  | true =>
      apply and_eq_ok rfl
      intro held
      have further := of_decide_eq_true (Bool.and_eq_true_iff.mp held).1
      rw [difference_eq_ok (Nat.le_of_lt further)]
      rfl

theorem decides_inner {next : Piece} (within : stop ≤ subject.text.size) (inside : start ≤ stop)
    (answers : AnswersBelow subject again
      (Piece.count (.separator :: .globstar :: next :: rest))) :
    Decides (acceptsSeparatorGlobstar subject again (.separator :: .globstar :: next :: rest) start
        stop leading)
      (subject.accepts (.separator :: .globstar :: next :: rest) start stop leading = true) := by
  have fewer := Piece.count_lt_cons .separator (.globstar :: next :: rest)
  have fewest := Nat.lt_trans (Piece.count_lt_cons .globstar (next :: rest)) fewer
  have long : ((.separator :: .globstar :: next :: rest : List Piece).length == 2) = false := by
    simp
  have fromNext : part (.separator :: .globstar :: next :: rest) 2 _ = .ok (next :: rest) :=
    part_from (by simp)
  have fromGlobstar : part (.separator :: .globstar :: next :: rest) 1 _ =
      .ok (.globstar :: next :: rest) :=
    part_from (by simp)
  rw [acceptsSeparatorGlobstar, separated_eq within, ok_bind, Subject.accepts_inner]
  simp only [long, Bool.false_eq_true, if_false, fromNext, fromGlobstar, ok_bind]
  apply Decides.or
  · have third : element (.separator :: .globstar :: next :: rest) 2 = .ok next := rfl
    rw [third, ok_bind]
    cases next with
    | separator => exact (answers.decides fewest inside within).congr (and_iff_right rfl).symm
    | _ => exact ⟨false, rfl, by simp [Subject.startsWithSeparator]⟩
  · intro _
    rw [← and_assoc]
    refine Decides.and ((decides_pure _).congr (by simp)) fun separated => ?_
    exact answers.decides fewer separated.1 within

theorem decides_fixedFirst (within : stop ≤ subject.text.size) (inside : start ≤ stop)
    (answers : AnswersBelow subject again (Piece.count (piece :: rest)))
    (takes : piece.extent? = some extent) (apart : ¬Piece.OpensGlobstar piece rest) :
    Decides (acceptsFixedFirst subject again piece (piece :: rest) start stop leading)
      (subject.accepts (piece :: rest) start stop leading = true) := by
  rw [acceptsFixedFirst, advance_eq takes within inside, ok_bind]
  by_cases stands : start + extent ≤ stop ∧ subject.standsAt start piece = true
  · have tail : part (piece :: rest) 1 _ = .ok rest := part_from (by simp)
    simp only [if_pos stands, tail, ok_bind]
    refine (answers.decides (Piece.count_lt_cons piece rest) stands.1 within).congr ?_
    rw [Subject.accepts_fixed takes apart, and_iff_right stands.1, and_iff_right stands.2]
  · simp only [if_neg stands]
    refine ⟨false, rfl, iff_of_false Bool.false_ne_true fun accepted => stands ?_⟩
    have ⟨fits, here, _⟩ := (Subject.accepts_fixed takes apart).mp accepted
    exact ⟨fits, here⟩

theorem count_dropLast_lt (found : Piece.fixedLast? rest leading = some (last, extent)) :
    Piece.count (piece :: rest.dropLast) < Piece.count (piece :: rest) := by
  have fewer := Piece.count_dropLast_lt_of_fixedLast found
  rw [Piece.count, Piece.count]
  omega

theorem decides_fixedLast (within : stop ≤ subject.text.size) (inside : start ≤ stop)
    (answers : AnswersBelow subject again (Piece.count (piece :: rest)))
    (open_ : piece.extent? = none) (found : Piece.fixedLast? rest false = some (last, extent))
    (plain : last ≠ .separator) :
    Decides (acceptsFixedLast subject again last (piece :: rest) start stop)
      (subject.accepts (piece :: rest) start stop false = true) := by
  obtain ⟨_, takes, ends⟩ := Piece.fixedLast?_some found
  have positive : 1 ≤ (piece :: rest).length := by simp
  have shorter : part (piece :: rest) 0 ((piece :: rest).length - 1) =
      .ok (piece :: rest.dropLast) := by
    rw [part_dropLast, List.dropLast_cons_of_ne_nil (Piece.ne_nil_of_fixedLast? found)]
  have directories : ¬subject.endsInZeroDirectories (piece :: rest) start = true := by
    intro zero
    obtain ⟨before, same⟩ := Subject.exists_of_endsInZeroDirectories zero
    rw [ends] at same
    have final := congrArg List.getLast? same
    simp only [← List.cons_append, List.getLast?_append] at final
    exact plain (Option.some.inj final)
  rw [acceptsFixedLast, retreat_eq takes within inside, ok_bind]
  by_cases stands : start + extent ≤ stop ∧ subject.standsAt (stop - extent) last = true
  · simp only [if_pos stands, difference_eq_ok positive, shorter, ok_bind]
    refine (answers.decides (count_dropLast_lt found) (by omega) (by omega)).congr ?_
    rw [Subject.accepts_cut open_ found]
    simp [directories, stands]
  · simp only [if_neg stands]
    refine ⟨false, rfl, iff_of_false Bool.false_ne_true fun accepted => stands ?_⟩
    rcases (Subject.accepts_cut open_ found).mp accepted with ⟨zero, _⟩ | ⟨fits, here, _⟩
    · exact absurd zero directories
    · exact ⟨fits, here⟩

theorem endsInZeroDirectories_eq (within : stop ≤ subject.text.size) (inside : start ≤ stop) :
    endsInZeroDirectories subject pieces start stop =
      .ok (subject.endsInZeroDirectories pieces start) := by
  rw [endsInZeroDirectories, Subject.endsInZeroDirectories]
  generalize pieces.reverse = reversed
  split
  · exact atSegmentStart_eq within inside
  · rfl
  · simp_all [pure_eq_ok]

theorem decides_finalSeparator (within : stop ≤ subject.text.size) (inside : start ≤ stop)
    (answers : AnswersBelow subject again (Piece.count (piece :: rest)))
    (open_ : piece.extent? = none)
    (found : Piece.fixedLast? rest false = some (.separator, 1)) :
    Decides (acceptsFinalSeparator subject again (piece :: rest) start stop)
      (subject.accepts (piece :: rest) start stop false = true) := by
  have nonempty := Piece.ne_nil_of_fixedLast? found
  have two : 2 ≤ (piece :: rest).length := by
    have positive := List.length_pos_iff.mpr nonempty
    rw [List.length_cons]
    omega
  have ends : (piece :: rest).dropLast = piece :: rest.dropLast :=
    List.dropLast_cons_of_ne_nil nonempty
  have fewer : Piece.count (piece :: rest.dropLast) < Piece.count (piece :: rest) :=
    count_dropLast_lt found
  have fewest := Piece.count_dropLast_le (piece :: rest.dropLast)
  have separated : (pure (decide (start < stop)) <&&>
        do isSeparatorAt subject stop (← difference stop 1)) =
      .ok (decide (start < stop) && subject.isSeparatorAt (stop - 1)) := by
    apply and_eq_ok rfl
    intro further
    have positive : 1 ≤ stop := Nat.lt_of_le_of_lt (Nat.zero_le start) (of_decide_eq_true further)
    rw [difference_eq_ok positive, ok_bind, isSeparatorAt_eq within (by omega)]
  have withoutDirectories : Decides (again (piece :: rest.dropLast).dropLast start stop false) _ :=
    answers.decides (Nat.lt_of_le_of_lt fewest fewer) inside within
  rw [acceptsFinalSeparator, separated, ok_bind, endsInZeroDirectories_eq within inside, ok_bind,
    Subject.accepts_cut open_ found]
  simp only [difference_eq_ok two, difference_eq_ok (Nat.le_of_succ_le two), ok_bind,
    part_dropLast_dropLast, part_dropLast, ends]
  by_cases further : start < stop ∧ subject.isSeparatorAt (stop - 1) = true
  · have positive : 1 ≤ stop := by omega
    have withoutSeparator : Decides (again (piece :: rest.dropLast) start (stop - 1) false) _ :=
      answers.decides fewer (by omega) (by omega)
    have closes : start + 1 ≤ stop ∧ subject.standsAt (stop - 1) .separator = true := further
    simp only [further, decide_true, Bool.and_self, if_true, difference_eq_ok positive, ok_bind]
    cases subject.endsInZeroDirectories (piece :: rest) start with
    | true =>
        refine (withoutDirectories.or fun _ => withoutSeparator).congr ?_
        simp [closes.1, closes.2]
    | false => exact withoutSeparator.congr (by simp [closes.1, closes.2])
  · have unseparated : (decide (start < stop) && subject.isSeparatorAt (stop - 1)) = false := by
      simpa using further
    have unclosed : ¬(start + 1 ≤ stop ∧ subject.standsAt (stop - 1) .separator = true) := further
    rw [← and_assoc, or_iff_left fun both => unclosed both.1]
    simp only [unseparated, Bool.false_eq_true, if_false]
    cases subject.endsInZeroDirectories (piece :: rest) start with
    | true => exact withoutDirectories.congr (and_iff_right rfl).symm
    | false => exact ⟨false, rfl, by simp⟩

theorem exists_unbroken_end (inside : start ≤ stop) :
    ∃ last, start ≤ last ∧ last ≤ stop ∧ subject.Unbroken start last ∧
      (last = stop ∨ subject.isSeparatorAt last = true) := by
  have low : start ≤ subject.componentEnd start stop :=
    (Subject.le_componentEnd_iff inside (Nat.le_refl start)).mpr
      ⟨inside, Subject.unbroken_self start⟩
  obtain ⟨bound, clear⟩ := (Subject.le_componentEnd_iff inside low).mp (Nat.le_refl _)
  refine ⟨_, low, bound, clear, or_iff_not_imp_right.mpr fun plain => ?_⟩
  -- Otherwise the component would reach one character further.
  by_contra shorter
  have next : subject.Unbroken start (subject.componentEnd start stop + 1) := by
    intro i above below
    rcases Nat.eq_or_lt_of_le (Nat.le_of_lt_succ below) with rfl | before
    · simpa using plain
    · exact clear i above before
  have further := (Subject.le_componentEnd_iff inside (Nat.le_succ_of_le low)).mpr
    ⟨Nat.lt_of_le_of_ne bound shorter, next⟩
  omega

theorem decides_star (within : stop ≤ subject.text.size) (inside : start ≤ stop)
    (answers : AnswersBelow subject again (Piece.count (.star :: rest)))
    (kept : Piece.fixedLast? rest leading = none) :
    Decides (acceptsStar subject again rest start stop leading)
      (subject.accepts (.star :: rest) start stop leading = true) := by
  have hidden : (pure (decide (start < stop)) <&&> isHiddenPeriod subject stop start) =
      .ok (decide (start < stop) && subject.isHiddenPeriod start) :=
    and_eq_ok rfl fun further => isHiddenPeriod_eq within (of_decide_eq_true further)
  rw [acceptsStar, hidden, ok_bind, Subject.accepts_star kept inside]
  by_cases protects : start < stop ∧ subject.isHiddenPeriod start = true
  · rw [if_pos (by simpa using protects)]
    exact ⟨false, rfl, by simp [protects]⟩
  rw [if_neg (by simpa using protects), and_iff_right protects]
  cases rest with
  | nil =>
      have scanned : (List.range' start (stop - start)).allM (fun i => do
            return !(← isSeparatorAt subject stop i)) =
          .ok ((List.range' start (stop - start)).all fun i => !subject.isSeparatorAt i) := by
        apply allM_eq_ok
        intro i member
        have bounds := List.mem_range'_1.mp member
        rw [isSeparatorAt_eq within (by omega)]
        rfl
      simp only [List.isEmpty_nil, if_true, Subject.accepts_nil]
      refine ((decides_pure leading).or fun _ => decides_of_eq_ok scanned).congr ?_
      have whole : ((List.range' start (stop - start)).all fun i => !subject.isSeparatorAt i) =
          true ↔ subject.Unbroken start stop := by
        simp only [List.all_eq_true, List.mem_range'_1, Bool.not_eq_true',
          Nat.add_sub_cancel' inside, and_imp]
        rfl
      rw [whole]
      constructor
      · intro given
        rcases given with anywhere | clear
        · obtain ⟨last, low, bound, clear, ends⟩ := exists_unbroken_end inside
          exact ⟨last, low, bound, clear, ends.imp_right fun separates => ⟨anywhere, separates⟩⟩
        · exact ⟨stop, inside, Nat.le_refl stop, clear, .inl rfl⟩
      · intro given
        obtain ⟨last, _, _, clear, rfl | ⟨anywhere, _⟩⟩ := given
        · exact .inr clear
        · exact .inl anywhere
  | cons next rest =>
      apply decides_starFrom within inside
      intro i low bound
      exact answers (next :: rest) i stop leading (Piece.count_lt_cons .star _) bound within

theorem decides_globstar (within : stop ≤ subject.text.size) (inside : start ≤ stop)
    (answers : AnswersBelow subject again (Piece.count (.globstar :: rest)))
    (kept : Piece.fixedLast? rest leading = none) :
    Decides (acceptsGlobstar subject again rest start stop leading)
      (subject.accepts (.globstar :: rest) start stop leading = true) := by
  rw [acceptsGlobstar, Subject.accepts_globstar kept]
  cases rest with
  | nil => exact ⟨true, rfl, by simp⟩
  | cons next rest =>
      have fewer := Piece.count_lt_cons .globstar (next :: rest)
      have fewest := Nat.lt_trans (Piece.count_lt_cons next rest) fewer
      have tail : part (next :: rest) 1 _ = .ok rest := part_from (by simp)
      have first : element (next :: rest) 0 = .ok next := rfl
      simp only [first, tail, ok_bind, List.isEmpty_cons, Bool.false_eq_true, if_false,
        List.cons_ne_nil, false_or]
      apply Decides.or
      · cases next with
        | separator =>
            have begins := decides_of_eq_ok (atSegmentStart_eq within inside)
            refine (begins.and fun _ => ?_).congr (and_iff_right rfl).symm
            exact answers.decides fewest inside within
        | _ => exact ⟨false, rfl, by simp [Subject.startsWithSeparator]⟩
      · intro _
        have tried : (positions start stop).anyM
              (fun i => again (next :: rest) i stop leading) =
            .ok ((positions start stop).any
              fun i => subject.accepts (next :: rest) i stop leading) := by
          apply anyM_eq_ok
          intro i member
          exact answers _ i stop leading fewer (mem_positions.mp member).2 within
        exact (decides_of_eq_ok tried).congr (by simp [and_assoc])

theorem decides_list {quantifier : Quantifier} {alternatives : List (List Piece)}
    (within : stop ≤ subject.text.size) (inside : start ≤ stop)
    (answers : AnswersBelow subject again (Piece.count (.list quantifier alternatives :: rest)))
    (kept : Piece.fixedLast? rest leading = none) :
    Decides (acceptsList subject again quantifier alternatives rest start stop leading)
      (subject.accepts (.list quantifier alternatives :: rest) start stop leading = true) := by
  have judges : JudgesFrom subject (fun occurrence => again occurrence.alternative
      occurrence.start occurrence.stop false) alternatives start stop := by
    intro alternative present i j _ low bound
    have part := Piece.count_le_totalCount present
    refine answers alternative i j false ?_ low (Nat.le_trans bound within)
    simp only [Piece.count, Piece.size]
    omega
  have known (i : Nat) (_ : start ≤ i) (bound : i ≤ stop) : again rest i stop leading =
      .ok (subject.accepts rest i stop leading) := by
    exact answers rest i stop leading (Piece.count_lt_cons _ rest) bound within
  have here := known start (Nat.le_refl start) inside
  have same : acceptsList subject again quantifier alternatives rest start stop leading =
      .ok (subject.acceptsList id alternatives (Subject.judged subject.acceptsWindow id)
        (fun i => subject.accepts rest i stop leading) start stop quantifier) := by
    cases quantifier with
    | exactlyOne => exact acceptsOnce_eq within inside judges known
    | zeroOrOne => exact or_eq_ok (acceptsOnce_eq within inside judges known) fun _ => here
    | zeroOrMore => exact or_eq_ok here fun _ => acceptsRepeatedly_eq within inside judges known
    | oneOrMore => exact acceptsRepeatedly_eq within inside judges known
    | negated => exact acceptsNegated_eq within inside judges known
  refine (decides_of_eq_ok same).congr ?_
  rw [Subject.acceptsList_iff quantifier inside, List.map_id, Subject.accepts_list kept inside]

theorem decides_open (within : stop ≤ subject.text.size) (inside : start ≤ stop)
    (answers : AnswersBelow subject again (Piece.count (piece :: rest)))
    (open_ : piece.extent? = none) (kept : Piece.fixedLast? rest leading = none) :
    Decides (acceptsOpen subject again (piece :: rest) start stop leading)
      (subject.accepts (piece :: rest) start stop leading = true) := by
  have tail : part (piece :: rest) 1 _ = .ok rest := part_from (by simp)
  have first : element (piece :: rest) 0 = .ok piece := rfl
  rw [acceptsOpen, tail, ok_bind, first, ok_bind]
  cases piece with
  | star => exact decides_star within inside answers kept
  | globstar => exact decides_globstar within inside answers kept
  | list quantifier alternatives => exact decides_list within inside answers kept
  | separator | literal | anyChar | bracket => cases open_

theorem decides_closed (within : stop ≤ subject.text.size) (inside : start ≤ stop)
    (answers : AnswersBelow subject again (Piece.count (piece :: rest)))
    (open_ : piece.extent? = none) :
    Decides (acceptsClosed subject again (piece :: rest) start stop)
      (subject.accepts (piece :: rest) start stop false = true) := by
  have positive : 1 ≤ (piece :: rest).length := by simp
  obtain ⟨last, final⟩ : ∃ last, (piece :: rest).getLast? = some last :=
    ⟨_, List.getLast?_eq_some_getLast (List.cons_ne_nil piece rest)⟩
  have read : element (piece :: rest) ((piece :: rest).length - 1) = .ok last :=
    element_eq_ok (List.getLast?_eq_getElem?.symm.trans final)
  rw [acceptsClosed, difference_eq_ok positive, ok_bind, read, ok_bind]
  cases found : Piece.fixedLast? rest false with
  | some fixed =>
      obtain ⟨fixed, extent⟩ := fixed
      obtain ⟨_, takes, ends⟩ := Piece.fixedLast?_some found
      obtain rfl : fixed = last := by
        rw [ends, ← List.cons_append, List.getLast?_concat] at final
        exact Option.some.inj final
      cases fixed with
      | separator =>
          cases takes
          exact decides_finalSeparator within inside answers open_ found
      | literal | anyChar | bracket =>
          exact decides_fixedLast within inside answers open_ found Piece.noConfusion
      | star | globstar | list => cases takes
  | none =>
      have kept := Piece.fixedLast?_open open_ found
      cases last with
      | star | globstar | list => exact decides_open within inside answers open_ found
      | separator | literal | anyChar | bracket =>
          simp [Piece.fixedLast?, final, Piece.extent?] at kept

theorem turn_fixed (within : stop ≤ subject.text.size) (inside : start ≤ stop)
    (takes : piece.extent? = some extent) (apart : ¬Piece.OpensGlobstar piece rest) :
    turn subject call again (piece :: rest) start stop leading =
      acceptsFixedFirst subject again piece (piece :: rest) start stop leading := by
  rw [turn.eq_def, if_pos ⟨inside, within⟩]
  split
  case h_1 same => cases same
  case h_2 more same =>
    cases same
    exact absurd ⟨rfl, more, rfl⟩ apart
  case h_3 same =>
    cases same
    rw [takes]
    rfl

theorem turn_open (within : stop ≤ subject.text.size) (inside : start ≤ stop)
    (open_ : piece.extent? = none) :
    turn subject call again (piece :: rest) start stop leading =
      if leading then acceptsOpen subject call (piece :: rest) start stop leading
      else turnClosed subject call again (piece :: rest) start stop := by
  rw [turn.eq_def, if_pos ⟨inside, within⟩]
  split
  case h_1 same => cases same
  case h_2 same =>
    cases same
    cases open_
  case h_3 same =>
    cases same
    rw [open_]
    rfl

theorem turnFinalSeparator_eq
    (same : call pieces.dropLast.dropLast start stop false =
      again pieces.dropLast.dropLast start stop false) :
    turnFinalSeparator subject call again pieces start stop =
      acceptsFinalSeparator subject again pieces start stop := by
  rw [turnFinalSeparator, acceptsFinalSeparator]
  by_cases two : 2 ≤ pieces.length
  · simp only [difference_eq_ok two, ok_bind, part_dropLast_dropLast, same]
  · have fault : difference pieces.length 2 = .error (.difference pieces.length 2) := if_neg two
    simp only [fault]
    rfl

theorem turnClosed_eq
    (same : call pieces.dropLast.dropLast start stop false =
      again pieces.dropLast.dropLast start stop false) :
    turnClosed subject call again pieces start stop =
        acceptsClosed subject again pieces start stop ∨
      turnClosed subject call again pieces start stop =
        acceptsClosed subject call pieces start stop := by
  rw [turnClosed, acceptsClosed, acceptsClosed, turnFinalSeparator_eq same]
  cases difference pieces.length 1 with
  | error fault => exact .inl rfl
  | ok final =>
      rw [ok_bind, ok_bind, ok_bind]
      cases element pieces final with
      | error fault => exact .inl rfl
      | ok last =>
          cases last with
          | separator | literal | anyChar | bracket => exact .inl rfl
          | star | globstar | list => exact .inr rfl

theorem decides_turnClosed (within : stop ≤ subject.text.size) (inside : start ≤ stop)
    (called : AnswersBelow subject call (Piece.count (piece :: rest)))
    (goesOn : AnswersBelow subject again (Piece.count (piece :: rest)))
    (open_ : piece.extent? = none) :
    Decides (turnClosed subject call again (piece :: rest) start stop)
      (subject.accepts (piece :: rest) start stop false = true) := by
  have fewer := Nat.lt_of_le_of_lt (Piece.count_dropLast_le (piece :: rest).dropLast)
    (Piece.count_dropLast_lt (List.cons_ne_nil piece rest))
  have same := (called _ start stop false fewer inside within).trans
    (goesOn _ start stop false fewer inside within).symm
  rcases turnClosed_eq same with gone | asked
  · rw [gone]
    exact decides_closed within inside goesOn open_
  · rw [asked]
    exact decides_closed within inside called open_

theorem decides_turn_open (within : stop ≤ subject.text.size) (inside : start ≤ stop)
    (called : AnswersBelow subject call (Piece.count (piece :: rest)))
    (goesOn : AnswersBelow subject again (Piece.count (piece :: rest)))
    (open_ : piece.extent? = none) :
    Decides (turn subject call again (piece :: rest) start stop leading)
      (subject.accepts (piece :: rest) start stop leading = true) := by
  rw [turn_open within inside open_]
  cases leading with
  | true => exact decides_open within inside called open_ rfl
  | false => exact decides_turnClosed within inside called goesOn open_

/-- A turn gives the answer of the matcher, if what it calls and what it goes on with do. -/
theorem decides_turn (within : stop ≤ subject.text.size) (inside : start ≤ stop)
    (called : AnswersBelow subject call (Piece.count pieces))
    (goesOn : AnswersBelow subject again (Piece.count pieces)) :
    Decides (turn subject call again pieces start stop leading)
      (subject.accepts pieces start stop leading = true) := by
  cases pieces using Piece.sequence_cases with
  | nil =>
      rw [turn, if_pos ⟨inside, within⟩, Subject.accepts]
      refine decides_of_eq_ok (or_eq_ok rfl fun unfinished => and_eq_ok rfl fun _ => ?_)
      have further := Nat.lt_of_le_of_ne inside (by simpa using unfinished)
      exact isSeparatorAt_eq within further
  | trailing =>
      rw [turn, if_pos ⟨inside, within⟩, Subject.accepts_trailing]
      exact decides_of_eq_ok (acceptsTrailing_eq within)
  | inner next rest =>
      rw [turn, if_pos ⟨inside, within⟩]
      exact decides_inner within inside called
  | fixed piece rest extent takes apart =>
      rw [turn_fixed within inside takes apart]
      exact decides_fixedFirst within inside goesOn takes apart
  | star | globstar | list => exact decides_turn_open within inside called goesOn rfl

theorem decides_step (within : stop ≤ subject.text.size) (inside : start ≤ stop)
    (answers : AnswersBelow subject again (Piece.count pieces)) :
    Decides (step subject again pieces start stop leading)
      (subject.accepts pieces start stop leading = true) := by
  rw [← turn_self]
  exact decides_turn within inside answers answers

/-- Calls need not be nested more deeply than there are pieces, however long the text is. -/
theorem answersBelow_accepts (subject : Subject) (depth : Nat) :
    AnswersBelow subject (accepts subject depth) depth := by
  induction depth with
  | zero => exact answersBelow_zero
  | succ depth ih =>
      intro pieces start stop leading fewer inside within
      exact (decides_step within inside (ih.mono (Nat.le_of_lt_succ fewer))).eq_ok

/-- Nothing is read out of range, no difference is below zero, and every window lies in the text:
the checked matcher has no fault, and gives the answer of the matcher. -/
theorem accepts_faultless (subject : Subject) (pieces : List Piece) (start stop : Nat)
    (leading : Bool) (inside : start ≤ stop) (within : stop ≤ subject.text.size) :
    accepts subject (Piece.count pieces + 1) pieces start stop leading =
      .ok (subject.accepts pieces start stop leading) :=
  answersBelow_accepts subject _ pieces start stop leading (Nat.lt_succ_self _) inside within

theorem accepts_faultless_leading :
    let subject : Subject := ⟨"a/.x/ccb/".toList.toArray, { leadingDirectories := true }⟩
    let pieces : List Piece := [.list .oneOrMore [[.star], [.literal ['a', '/']]], .literal ['.'],
      .anyChar, .separator, .globstar, .separator, .list .negated [[.anyChar], []], .literal ['b']]
    0 ≤ 9 ∧ 9 ≤ subject.text.size ∧
      accepts subject (Piece.count pieces + 1) pieces 0 9 true =
        .ok (subject.accepts pieces 0 9 true) ∧
      subject.accepts pieces 0 9 true = true :=
  have within : 9 ≤ "a/.x/ccb/".toList.toArray.size := by
    decide
  ⟨Nat.zero_le 9, within, accepts_faultless _ _ 0 9 true (Nat.zero_le 9) within,
    by decide +kernel⟩

end

end Glob.Checked
