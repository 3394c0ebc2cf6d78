import Glob.Proofs.Agreement
import Glob.Proofs.Chain

/-! The stretches of a text that a list of alternatives takes, and that the matcher finds them. -/

namespace Glob

open Relation (ReflTransGen TransGen)

/-- The stretches that a list takes. An occurrence takes a stretch of `once`; what is negated are
those of `any`, within the stretches of `unbroken`. -/
def Quantifier.Spans (unbroken once any : Nat → Nat → Prop) : Quantifier → Nat → Nat → Prop
  | .exactlyOne, start, last => once start last
  | .zeroOrOne, start, last => start = last ∨ once start last
  | .zeroOrMore, start, last => ReflTransGen (fun i j => i < j ∧ once i j) start last
  | .oneOrMore, start, last => TransGen (fun i j => i < j ∧ once i j) start last
  | .negated, start, last => unbroken start last ∧ ¬any start last

theorem le_of_chain {once : Nat → Nat → Prop} {start last : Nat}
    (chain : ReflTransGen (fun i j => i < j ∧ once i j) start last) : start ≤ last := by
  induction chain with
  | refl => exact Nat.le_refl start
  | tail _ step ih => exact Nat.le_trans ih (Nat.le_of_lt step.1)

theorem chain_congr {once other : Nat → Nat → Prop} {start last : Nat}
    (same : ∀ i j, start ≤ i → i ≤ j → j ≤ last → (once i j ↔ other i j))
    (chain : ReflTransGen (fun i j => i < j ∧ once i j) start last) :
    ReflTransGen (fun i j => i < j ∧ other i j) start last := by
  induction chain with
  | refl => exact .refl
  | @tail middle last before step ih =>
      have bound := Nat.le_of_lt step.1
      have earlier := ih fun i j since low high => same i j since low (Nat.le_trans high bound)
      have taken := (same middle last (le_of_chain before) bound (Nat.le_refl last)).mp step.2
      exact .tail earlier ⟨step.1, taken⟩

theorem transChain_congr {once other : Nat → Nat → Prop} {start last : Nat}
    (same : ∀ i j, start ≤ i → i ≤ j → j ≤ last → (once i j ↔ other i j))
    (chain : TransGen (fun i j => i < j ∧ once i j) start last) :
    TransGen (fun i j => i < j ∧ other i j) start last := by
  obtain ⟨middle, first, rest⟩ := TransGen.head'_iff.mp chain
  have low := Nat.le_of_lt first.1
  have taken := (same start middle (Nat.le_refl start) low (le_of_chain rest)).mp first.2
  have later := chain_congr (fun i j since => same i j (Nat.le_trans low since)) rest
  exact .head' ⟨first.1, taken⟩ later

theorem Quantifier.spans_congr {unbroken unbroken' once once' any any' : Nat → Nat → Prop}
    {start last : Nat} (quantifier : Quantifier) (inside : start ≤ last)
    (sameUnbroken : unbroken start last ↔ unbroken' start last)
    (sameOnce : ∀ i j, start ≤ i → i ≤ j → j ≤ last → (once i j ↔ once' i j))
    (sameAny : any start last ↔ any' start last) :
    quantifier.Spans unbroken once any start last ↔
      quantifier.Spans unbroken' once' any' start last := by
  have back : ∀ i j, start ≤ i → i ≤ j → j ≤ last → (once' i j ↔ once i j) :=
    fun i j since low high => (sameOnce i j since low high).symm
  have whole := sameOnce start last (Nat.le_refl start) inside (Nat.le_refl last)
  cases quantifier with
  | exactlyOne => exact whole
  | zeroOrOne => exact or_congr_right whole
  | zeroOrMore => exact ⟨chain_congr sameOnce, chain_congr back⟩
  | oneOrMore => exact ⟨transChain_congr sameOnce, transChain_congr back⟩
  | negated => exact and_congr sameUnbroken (not_congr sameAny)

theorem holds_of_chain {once property : Nat → Nat → Prop} {start last : Nat}
    (empty : ∀ i, property i i) (join : ∀ i j k, property i j → property j k → property i k)
    (part : ∀ i j, i ≤ j → j ≤ last → once i j → property i j)
    (chain : ReflTransGen (fun i j => i < j ∧ once i j) start last) : property start last := by
  induction chain with
  | refl => exact empty start
  | @tail middle last _ step ih =>
      have bound := Nat.le_of_lt step.1
      have before := ih fun i j low high => part i j low (Nat.le_trans high bound)
      exact join start middle last before (part middle last bound (Nat.le_refl last) step.2)

namespace Subject

variable (subject : Subject) (holds : List Piece → Nat → Nat → Bool)
  (alternatives : List (List Piece))

/-- What one occurrence of an alternative takes, if `holds` says what the alternatives match. -/
def TakesOnce (start last : Nat) : Prop :=
  ∃ alternative ∈ alternatives, start ≤ last ∧ subject.FitsForm alternative start last ∧
    holds alternative start last = true

def TakesAny (start last : Nat) : Prop :=
  ∃ alternative ∈ alternatives, holds alternative start last = true

def TakesList (quantifier : Quantifier) (start last : Nat) : Prop :=
  quantifier.Spans subject.Unbroken (subject.TakesOnce holds alternatives)
    (TakesAny holds alternatives) start last

variable {subject holds alternatives} in
theorem takesList_congr {other : Subject} {judge : List Piece → Nat → Nat → Bool}
    {kind : Piece → Prop} {quantifier : Quantifier} {start last : Nat}
    (alike : subject.SeenAlike other kind last) (inside : start ≤ last)
    (same : ∀ alternative ∈ alternatives, ∀ i j, start ≤ i → i ≤ j → j ≤ last →
      holds alternative i j = judge alternative i j) :
    subject.TakesList holds alternatives quantifier start last ↔
      other.TakesList judge alternatives quantifier start last := by
  apply quantifier.spans_congr inside (alike.unbroken (Nat.le_refl last))
  · intro i j since low high
    apply exists_congr
    intro alternative
    apply and_congr_right
    intro present
    rw [same alternative present i j since low high, alike.fitsForm high]
  · apply exists_congr
    intro alternative
    apply and_congr_right
    intro present
    rw [same alternative present start last (Nat.le_refl start) inside (Nat.le_refl last)]

variable {subject holds alternatives} in
theorem holds_of_takesList {property : Nat → Nat → Prop} {quantifier : Quantifier}
    {start last : Nat} (positive : quantifier ≠ .negated) (empty : ∀ i, property i i)
    (join : ∀ i j k, property i j → property j k → property i k) (inside : start ≤ last)
    (part : ∀ alternative ∈ alternatives, ∀ i j, i ≤ j → j ≤ last →
      holds alternative i j = true → property i j)
    (takes : subject.TakesList holds alternatives quantifier start last) : property start last := by
  have once : ∀ i j, i ≤ j → j ≤ last → subject.TakesOnce holds alternatives i j →
      property i j := by
    intro i j low high taken
    obtain ⟨alternative, present, _, _, held⟩ := taken
    exact part alternative present i j low high held
  cases quantifier with
  | exactlyOne => exact once start last inside (Nat.le_refl last) takes
  | zeroOrOne =>
      rcases takes with same | taken
      · rw [same]
        exact empty last
      · exact once start last inside (Nat.le_refl last) taken
  | zeroOrMore => exact holds_of_chain empty join once takes
  | oneOrMore => exact holds_of_chain empty join once takes.to_reflTransGen
  | negated => exact absurd rfl positive

section

variable {subject holds} {α : Type} {pieces : α → List Piece} {options : List α}
  {goal : Nat → Bool} {start last stop : Nat}

def judged (holds : List Piece → Nat → Nat → Bool) (pieces : α → List Piece)
    (occurrence : Occurrence α) : Bool :=
  holds (pieces occurrence.alternative) occurrence.start occurrence.stop

theorem mem_possibleOccurrences {occurrence : Occurrence α} (inside : start ≤ stop) :
    occurrence ∈ subject.possibleOccurrences pieces options stop start ↔
      occurrence.alternative ∈ options ∧ occurrence.start = start ∧
        start ≤ occurrence.stop ∧ occurrence.stop ≤ stop ∧
        subject.FitsForm (pieces occurrence.alternative) start occurrence.stop := by
  cases occurrence with
  | mk alternative first final =>
      simp only [possibleOccurrences, List.mem_flatMap, List.mem_map,
        mem_candidateEnds inside, Occurrence.mk.injEq]
      constructor
      · intro given
        rcases given with ⟨_, present, _, possible, rfl, rfl, rfl⟩
        exact ⟨present, rfl, possible⟩
      · intro given
        rcases given with ⟨present, rfl, possible⟩
        exact ⟨alternative, present, final, possible, rfl, rfl, rfl⟩

theorem takesOnce_iff_occurrence (inside : start ≤ stop) (bound : last ≤ stop) :
    subject.TakesOnce holds (options.map pieces) start last ↔
      ∃ occurrence ∈ subject.possibleOccurrences pieces options stop start,
        judged holds pieces occurrence = true ∧ occurrence.stop = last := by
  constructor
  · intro ⟨_, mapped, low, fits, held⟩
    obtain ⟨alternative, present, rfl⟩ := List.mem_map.mp mapped
    exact ⟨⟨alternative, start, last⟩,
      (mem_possibleOccurrences inside).mpr ⟨present, rfl, low, bound, fits⟩, held, rfl⟩
  · intro given
    rcases given with ⟨occurrence, possible, held, rfl⟩
    obtain ⟨present, rfl, low, _, fits⟩ := (mem_possibleOccurrences inside).mp possible
    exact ⟨_, List.mem_map_of_mem present, low, fits, held⟩

theorem acceptsOnce_iff (inside : start ≤ stop) :
    subject.acceptsOnce pieces options (judged holds pieces) goal start stop = true ↔
      ∃ last, start ≤ last ∧ last ≤ stop ∧
        subject.TakesOnce holds (options.map pieces) start last ∧ goal last = true := by
  simp only [acceptsOnce, List.any_eq_true, Bool.and_eq_true]
  constructor
  · intro ⟨occurrence, present, held, reached⟩
    obtain ⟨_, _, low, bound, _⟩ := (mem_possibleOccurrences inside).mp present
    exact ⟨occurrence.stop, low, bound,
      (takesOnce_iff_occurrence inside bound).mpr ⟨occurrence, present, held, rfl⟩, reached⟩
  · intro ⟨last, _, bound, takes, reached⟩
    obtain ⟨occurrence, present, held, rfl⟩ := (takesOnce_iff_occurrence inside bound).mp takes
    exact ⟨occurrence, present, held, reached⟩

/-- A chain of the search is one of non-empty occurrences: an empty one leads nowhere. -/
theorem chain_of_leads {here : Nat} (inside : here ≤ stop)
    (chain : ReflTransGen (Occurrence.Leads (subject.possibleOccurrences pieces options stop)
      (judged holds pieces) (positions (start + 1) stop)) here last) :
    last ≤ stop ∧
      ReflTransGen (fun i j => i < j ∧ subject.TakesOnce holds (options.map pieces) i j)
        here last := by
  induction chain with
  | refl => exact ⟨inside, .refl⟩
  | @tail middle last _ step ih =>
      obtain ⟨allowed, occurrence, present, held, stops⟩ := step
      have bound := (mem_positions.mp allowed).2
      have takes := (takesOnce_iff_occurrence ih.1 bound).mpr
        ⟨occurrence, present, held, stops⟩
      have ⟨_, _, low, _⟩ := takes
      refine ⟨bound, ?_⟩
      by_cases same : middle = last
      · exact same ▸ ih.2
      · exact .tail ih.2 ⟨by omega, takes⟩

theorem leads_of_chain {here : Nat} (beyond : start ≤ here) (bound : last ≤ stop)
    (chain : ReflTransGen
      (fun i j => i < j ∧ subject.TakesOnce holds (options.map pieces) i j) here last) :
    ReflTransGen (Occurrence.Leads (subject.possibleOccurrences pieces options stop)
      (judged holds pieces) (positions (start + 1) stop)) here last := by
  induction chain with
  | refl => exact .refl
  | @tail middle last before step ih =>
      have low := le_of_chain before
      have shorter := step.1
      have occurs := (takesOnce_iff_occurrence (by omega) bound).mp step.2
      exact .tail (ih (by omega)) ⟨mem_positions.mpr (by omega), occurs⟩

theorem acceptsRepeatedly_iff (inside : start ≤ stop) :
    subject.acceptsRepeatedly pieces options (judged holds pieces) goal start stop = true ↔
      ∃ last, start ≤ last ∧ last ≤ stop ∧
        TransGen (fun i j => i < j ∧ subject.TakesOnce holds (options.map pieces) i j)
          start last ∧ goal last = true := by
  simp only [acceptsRepeatedly, Occurrence.reaches_iff (positions_nodup (start + 1) stop),
    Occurrence.isNew_iff]
  constructor
  · intro ⟨occurrence, present, ⟨fresh, held⟩, last, chain, reached⟩
    have ⟨beyond, bound⟩ := mem_positions.mp fresh
    have first := (takesOnce_iff_occurrence inside bound).mpr ⟨occurrence, present, held, rfl⟩
    obtain ⟨within, rest⟩ := chain_of_leads bound chain
    have low := le_of_chain rest
    exact ⟨last, by omega, within, .head' ⟨beyond, first⟩ rest, reached⟩
  · intro ⟨last, _, bound, chain, reached⟩
    obtain ⟨middle, first, rest⟩ := TransGen.head'_iff.mp chain
    have low := le_of_chain rest
    have further := first.1
    obtain ⟨occurrence, present, held, rfl⟩ :=
      (takesOnce_iff_occurrence inside (by omega)).mp first.2
    exact ⟨occurrence, present, ⟨mem_positions.mpr (by omega), held⟩, last,
      leads_of_chain (by omega) bound rest, reached⟩

theorem acceptsNegated_iff (inside : start ≤ stop) :
    subject.acceptsNegated options (judged holds pieces) goal start stop = true ↔
      ∃ last, start ≤ last ∧ last ≤ stop ∧
        (subject.Unbroken start last ∧ ¬TakesAny holds (options.map pieces) start last) ∧
        goal last = true := by
  simp only [acceptsNegated, List.any_eq_true, List.mem_reverse, Bool.and_eq_true,
    Bool.not_eq_true', mem_positions_componentEnd inside, List.any_eq_false, TakesAny,
    List.mem_map, exists_exists_and_eq_and, judged, not_exists, not_and, and_assoc]

theorem acceptsList_iff (quantifier : Quantifier) (inside : start ≤ stop) :
    subject.acceptsList pieces options (judged holds pieces) goal start stop quantifier = true ↔
      ∃ last, start ≤ last ∧ last ≤ stop ∧
        subject.TakesList holds (options.map pieces) quantifier start last ∧
        goal last = true := by
  unfold acceptsList TakesList
  cases quantifier with
  | exactlyOne => exact acceptsOnce_iff inside
  | zeroOrOne =>
      simp only [Bool.or_eq_true, acceptsOnce_iff inside, Quantifier.Spans]
      constructor
      · intro given
        rcases given with ⟨last, low, bound, takes, reached⟩ | reached
        · exact ⟨last, low, bound, .inr takes, reached⟩
        · exact ⟨start, Nat.le_refl start, inside, .inl rfl, reached⟩
      · intro given
        rcases given with ⟨last, low, bound, rfl | takes, reached⟩
        · exact .inr reached
        · exact .inl ⟨last, low, bound, takes, reached⟩
  | zeroOrMore =>
      simp only [Bool.or_eq_true, acceptsRepeatedly_iff inside, Quantifier.Spans]
      constructor
      · intro given
        rcases given with reached | ⟨last, low, bound, chain, reached⟩
        · exact ⟨start, Nat.le_refl start, inside, .refl, reached⟩
        · exact ⟨last, low, bound, chain.to_reflTransGen, reached⟩
      · intro ⟨last, low, bound, chain, reached⟩
        rcases Relation.reflTransGen_iff_eq_or_transGen.mp chain with rfl | chain
        · exact .inl reached
        · exact .inr ⟨last, low, bound, chain, reached⟩
  | oneOrMore => exact acceptsRepeatedly_iff inside
  | negated => exact acceptsNegated_iff inside

theorem acceptsStar_iff (inside : start ≤ stop) :
    subject.acceptsStar goal start stop = true ↔
      ¬(start < stop ∧ subject.isHiddenPeriod start = true) ∧
        ∃ last, start ≤ last ∧ last ≤ stop ∧ subject.Unbroken start last ∧ goal last = true := by
  simp only [acceptsStar, Bool.and_eq_true, Bool.not_eq_true', List.any_eq_true,
    mem_positions_componentEnd inside, and_assoc, ← Bool.not_eq_true, decide_eq_true_eq]

end

end Subject

end Glob
