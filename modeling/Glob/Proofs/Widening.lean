import Glob.Proofs.Locality

/-!
Wildcards where no character is a separator. There a `**` matches all that a `*` does, and what it
matches beyond that begins with a hidden period. The only such period is at the start of the text,
so the two differ there or not at all.
-/

namespace Glob

namespace Piece

mutual

def widen : Piece → Piece
  | star => globstar
  | list quantifier alternatives => list quantifier (widenEach alternatives)
  | separator => separator
  | literal text => literal text
  | anyChar => anyChar
  | bracket members negated => bracket members negated
  | globstar => globstar

def widenAll : List Piece → List Piece
  | [] => []
  | piece :: rest => piece.widen :: widenAll rest

def widenEach : List (List Piece) → List (List Piece)
  | [] => []
  | pieces :: rest => widenAll pieces :: widenEach rest

end

/-- Whether a piece may match nothing, as far as its form tells. -/
def mayVanish : Piece → Bool
  | star | globstar => true
  | literal text => text.isEmpty
  | list quantifier alternatives => mayTakeNothing alternatives quantifier
  | separator | anyChar | bracket .. => false

mutual

/-- Whether a wildcard can be reached before any character is taken. -/
def opensWithWildcard : List Piece → Bool
  | [] => false
  | piece :: rest => piece.isOpenedByWildcard || piece.mayVanish && opensWithWildcard rest

def isOpenedByWildcard : Piece → Bool
  | star | globstar => true
  | list _ alternatives => someOpensWithWildcard alternatives
  | separator | literal _ | anyChar | bracket .. => false

def someOpensWithWildcard : List (List Piece) → Bool
  | [] => false
  | pieces :: rest => opensWithWildcard pieces || someOpensWithWildcard rest

end

variable {piece last : Piece} {pieces rest : List Piece} {alternatives : List (List Piece)}
  {quantifier : Quantifier} {extent : Nat} {leading : Bool}

theorem widenAll_eq_map : widenAll pieces = pieces.map widen := by
  induction pieces with
  | nil => rfl
  | cons piece rest ih => rw [widenAll, ih, List.map_cons]

theorem widenEach_eq_map : widenEach alternatives = alternatives.map widenAll := by
  induction alternatives with
  | nil => rfl
  | cons pieces rest ih => rw [widenEach, ih, List.map_cons]

theorem widenAll_dropLast : widenAll pieces.dropLast = (widenAll pieces).dropLast := by
  simp only [widenAll_eq_map, List.map_dropLast]

theorem extent?_widen : piece.widen.extent? = piece.extent? := by
  cases piece <;> rfl

theorem widen_of_extent (takes : piece.extent? = some extent) : piece.widen = piece := by
  cases piece with
  | star | globstar | list => cases takes
  | separator | literal | anyChar | bracket => rfl

theorem widen_eq_separator : piece.widen = .separator ↔ piece = .separator := by
  cases piece <;> simp [widen]

theorem separator_mem_widenAll : .separator ∈ widenAll pieces ↔ .separator ∈ pieces := by
  simp only [widenAll_eq_map, List.mem_map, widen_eq_separator, exists_eq_right]

theorem fixedLast?_widenAll : fixedLast? (widenAll rest) leading = fixedLast? rest leading := by
  unfold fixedLast?
  rw [widenAll_eq_map, List.getLast?_map]
  cases rest.getLast? with
  | none => rfl
  | some last => cases last <;> rfl

theorem commonLength?_cons_cons {first second : List Piece} :
    commonLength? (first :: second :: alternatives) = do
      let length ← matchLength? first
      guard (commonLength? (second :: alternatives) == some length)
      return length :=
  rfl

mutual

theorem matchLength?_widenAll : ∀ pieces, matchLength? (widenAll pieces) = matchLength? pieces
  | [] => rfl
  | piece :: rest => by
      rw [widenAll, matchLength?, matchLength?, width?_widen piece, matchLength?_widenAll rest]

theorem width?_widen : ∀ piece : Piece, piece.widen.width? = piece.width?
  | separator | literal _ | anyChar | bracket .. | star | globstar => rfl
  | list quantifier alternatives => by
      cases quantifier with
      | exactlyOne => rw [widen, width?, width?, commonLength?_widenEach alternatives]
      | zeroOrOne | zeroOrMore | oneOrMore | negated => rfl

theorem commonLength?_widenEach :
    ∀ alternatives, commonLength? (widenEach alternatives) = commonLength? alternatives
  | [] => rfl
  | [pieces] => matchLength?_widenAll pieces
  | pieces :: next :: rest => by
      have later := commonLength?_widenEach (next :: rest)
      rw [widenEach] at later
      rw [widenEach, widenEach, commonLength?_cons_cons, commonLength?_cons_cons, later,
        matchLength?_widenAll pieces]

end

theorem mayVanish_of_extent (takes : piece.extent? = some 0) : piece.mayVanish = true := by
  cases piece with
  | literal text => exact List.isEmpty_iff_length_eq_zero.mpr (Option.some.inj takes)
  | star | globstar => rfl
  | separator | anyChar | bracket | list => cases takes

theorem mayVanish_widen : piece.widen.mayVanish = piece.mayVanish := by
  cases piece with
  | separator | literal | anyChar | bracket | star | globstar => rfl
  | list quantifier alternatives =>
      cases quantifier with
      | exactlyOne =>
          rw [widen, mayVanish, mayVanish, mayTakeNothing, mayTakeNothing, widenEach_eq_map,
            List.any_map]
          congr 1
          funext alternative
          rw [Function.comp, matchLength?_widenAll]
      | zeroOrOne | zeroOrMore | oneOrMore | negated => rfl

mutual

theorem opensWithWildcard_widenAll :
    ∀ pieces, opensWithWildcard (widenAll pieces) = opensWithWildcard pieces
  | [] => rfl
  | piece :: rest => by
      rw [widenAll, opensWithWildcard, opensWithWildcard, isOpenedByWildcard_widen piece,
        mayVanish_widen, opensWithWildcard_widenAll rest]

theorem isOpenedByWildcard_widen :
    ∀ piece : Piece, piece.widen.isOpenedByWildcard = piece.isOpenedByWildcard
  | separator | literal _ | anyChar | bracket .. | star | globstar => rfl
  | list _ alternatives => someOpensWithWildcard_widenEach alternatives

theorem someOpensWithWildcard_widenEach : ∀ alternatives,
    someOpensWithWildcard (widenEach alternatives) = someOpensWithWildcard alternatives
  | [] => rfl
  | pieces :: rest => by
      rw [widenEach, someOpensWithWildcard, someOpensWithWildcard,
        opensWithWildcard_widenAll pieces, someOpensWithWildcard_widenEach rest]

end

theorem someOpensWithWildcard_iff : someOpensWithWildcard alternatives = true ↔
    ∃ alternative ∈ alternatives, opensWithWildcard alternative = true := by
  induction alternatives with
  | nil => simp [someOpensWithWildcard]
  | cons pieces rest ih => simp [someOpensWithWildcard, ih]

theorem opensWithWildcard_append {more : List Piece} (opens : opensWithWildcard pieces = true) :
    opensWithWildcard (pieces ++ more) = true := by
  induction pieces with
  | nil => cases opens
  | cons piece rest ih =>
      simp only [List.cons_append, opensWithWildcard, Bool.or_eq_true, Bool.and_eq_true] at opens ⊢
      exact opens.imp_right (And.imp_right ih)

end Piece

namespace Subject

variable {subject : Subject} {pieces rest : List Piece} {start stop : Nat} {leading : Bool}

theorem eq_zero_of_hiddenPeriod (whole : ∀ i, subject.isSeparatorAt i = false) {i : Nat}
    (hidden : subject.isHiddenPeriod i = true) : i = 0 := by
  have ⟨_, _, opens⟩ := isHiddenPeriod_iff.mp hidden
  simpa [atSegmentStart, whole] using opens

theorem separator_mem_of_endsInZeroDirectories
    (ends : subject.endsInZeroDirectories pieces start = true) : .separator ∈ pieces := by
  obtain ⟨before, rfl⟩ := exists_of_endsInZeroDirectories ends
  simp

theorem startsWithSeparator_eq_false (absent : .separator ∉ pieces) :
    startsWithSeparator pieces = false := by
  cases pieces with
  | nil => rfl
  | cons piece rest => cases piece <;> first | rfl | simp at absent

/-- The pieces may be widened from a position on: nothing that a `*` is kept from is there. -/
def Widens (subject : Subject) (pieces : List Piece) (start stop : Nat) : Prop :=
  start < stop → subject.isHiddenPeriod start = true → Piece.opensWithWildcard pieces = false

namespace Widens

theorem shorten {more : List Piece} {last : Nat}
    (widens : subject.Widens (pieces ++ more) start stop) (bound : last ≤ stop) :
    subject.Widens pieces start last := by
  intro shorter hidden
  apply Bool.eq_false_iff.mpr
  intro opens
  have closed := widens (Nat.lt_of_lt_of_le shorter bound) hidden
  rw [Piece.opensWithWildcard_append opens] at closed
  cases closed

variable {piece : Piece} {last : Nat}

theorem later (widens : subject.Widens (piece :: rest) start stop)
    (whole : ∀ i, subject.isSeparatorAt i = false) (low : start ≤ last)
    (vanishes : start = last → piece.mayVanish = true) : subject.Widens rest last stop := by
  intro shorter hidden
  have first := eq_zero_of_hiddenPeriod whole hidden
  obtain rfl : start = last := by omega
  have closed := widens shorter hidden
  rw [Piece.opensWithWildcard, vanishes rfl, Bool.true_and, Bool.or_eq_false_iff] at closed
  exact closed.2

theorem alternative {quantifier : Quantifier} {alternatives : List (List Piece)}
    {alternative : List Piece} {i j : Nat}
    (widens : subject.Widens (.list quantifier alternatives :: rest) start stop)
    (whole : ∀ i, subject.isSeparatorAt i = false) (member : alternative ∈ alternatives)
    (low : start ≤ i) (bound : j ≤ stop) : subject.Widens alternative i j := by
  intro shorter hidden
  have first := eq_zero_of_hiddenPeriod whole hidden
  obtain rfl : start = i := by omega
  have closed := widens (Nat.lt_of_lt_of_le shorter bound) hidden
  rw [Piece.opensWithWildcard, Bool.or_eq_false_iff, Piece.isOpenedByWildcard] at closed
  apply Bool.eq_false_iff.mpr
  intro opens
  exact Bool.eq_false_iff.mp closed.1 (Piece.someOpensWithWildcard_iff.mpr ⟨_, member, opens⟩)

end Widens

theorem accepts_globstar_whole (absent : .separator ∉ rest)
    (kept : Piece.fixedLast? rest leading = none) (inside : start ≤ stop) :
    subject.accepts (.globstar :: rest) start stop leading = true ↔
      ∃ last, start ≤ last ∧ last ≤ stop ∧ subject.accepts rest last stop leading = true := by
  rw [accepts_globstar kept, startsWithSeparator_eq_false absent]
  constructor
  · intro accepted
    rcases accepted with rfl | ⟨separates, _⟩ | found
    · exact ⟨stop, inside, Nat.le_refl stop, accepts_nil.mpr (.inl rfl)⟩
    · cases separates
    · exact found
  · exact fun found => .inr (.inr found)

section

variable (whole : ∀ i, subject.isSeparatorAt i = false)

include whole

theorem accepts_star_whole (kept : Piece.fixedLast? rest leading = none) (inside : start ≤ stop)
    (widens : subject.Widens (.star :: rest) start stop) :
    subject.accepts (.star :: rest) start stop leading = true ↔
      ∃ last, start ≤ last ∧ last ≤ stop ∧ subject.accepts rest last stop leading = true := by
  have visible : ¬(start < stop ∧ subject.isHiddenPeriod start = true) := by
    intro ⟨shorter, hidden⟩
    cases widens shorter hidden
  have unbroken (last : Nat) : subject.Unbroken start last := fun i _ _ => whole i
  simp only [accepts_star kept inside, visible, unbroken, not_false_eq_true, true_and]

theorem fitsForm_widenAll {alternative : List Piece} :
    subject.FitsForm (Piece.widenAll alternative) start stop ↔
      subject.FitsForm alternative start stop := by
  unfold FitsForm
  rw [Piece.matchLength?_widenAll]
  cases Piece.matchLength? alternative with
  | some length => rfl
  | none => exact iff_of_true (fun _ i _ _ => whole i) (fun _ i _ _ => whole i)

theorem takesList_widenEach
    {holds : List Piece → Nat → Nat → Bool} {alternatives : List (List Piece)}
    {quantifier : Quantifier} (inside : start ≤ stop)
    (same : ∀ alternative ∈ alternatives, ∀ i j, start ≤ i → i ≤ j → j ≤ stop →
      holds alternative i j = holds (Piece.widenAll alternative) i j) :
    subject.TakesList holds alternatives quantifier start stop ↔
      subject.TakesList holds (Piece.widenEach alternatives) quantifier start stop := by
  rw [Piece.widenEach_eq_map]
  apply quantifier.spans_congr inside Iff.rfl
  · intro i j since low high
    simp only [TakesOnce, List.mem_map, exists_exists_and_eq_and, fitsForm_widenAll whole]
    apply exists_congr
    intro alternative
    apply and_congr_right
    intro present
    rw [same alternative present i j since low high]
  · simp only [TakesAny, List.mem_map, exists_exists_and_eq_and]
    apply exists_congr
    intro alternative
    apply and_congr_right
    intro present
    rw [same alternative present start stop (Nat.le_refl start) inside (Nat.le_refl stop)]

/-- Where there are no separators, widening changes nothing but what a `*` matches at a hidden
period. -/
theorem accepts_widenAll
    (spares : Piece.Everywhere (· ≠ .separator) pieces) (inside : start ≤ stop)
    (widens : subject.Widens pieces start stop) :
    subject.accepts pieces start stop leading = true ↔
      subject.accepts (Piece.widenAll pieces) start stop leading = true := by
  induction leading, pieces using Piece.step_induction generalizing start stop with
  | nil leading => rfl
  | trailing leading => exact absurd rfl (spares.mem List.mem_cons_self)
  | inner leading next rest => exact absurd rfl (spares.mem List.mem_cons_self)
  | fixed leading piece rest extent takes apart ih =>
      have apartWidened : ¬Piece.OpensGlobstar piece (Piece.widenAll rest) :=
        fun opens => spares.mem List.mem_cons_self opens.1
      rw [Piece.widenAll, Piece.widen_of_extent takes, accepts_fixed takes apart,
        accepts_fixed takes apartWidened]
      apply and_congr_right
      intro fits
      apply and_congr_right
      intro _
      apply ih spares.tail fits
      apply widens.later whole (Nat.le_add_right start extent)
      intro same
      obtain rfl : extent = 0 := by omega
      exact Piece.mayVanish_of_extent takes
  | cut leading piece rest last extent open_ found _ ih =>
      obtain ⟨_, takes, ends⟩ := Piece.fixedLast?_some found
      have openWidened := Piece.extent?_widen.trans open_
      have foundWidened := Piece.fixedLast?_widenAll.trans found
      have kept : Piece.Everywhere (· ≠ .separator) (piece :: rest.dropLast) :=
        spares.subset (List.cons_subset_cons piece (List.dropLast_subset rest))
      have absent : .separator ∉ piece :: rest := fun present => spares.mem present rfl
      rw [Piece.widenAll, accepts_cut open_ found, accepts_cut openWidened foundWidened,
        ← Piece.widenAll_dropLast, ← Piece.widenAll, ← Piece.widenAll]
      -- No piece is a separator, so there is no final `**/` that could stand for no directories.
      apply or_congr
      · apply iff_of_false
        · exact fun zero => absent (separator_mem_of_endsInZeroDirectories zero.1)
        · intro zero
          have present := separator_mem_of_endsInZeroDirectories zero.1
          exact absent (Piece.separator_mem_widenAll.mp present)
      · apply and_congr_right
        intro fits
        apply and_congr_right
        intro _
        apply ih kept (by omega)
        rw [ends] at widens
        exact Widens.shorten widens (Nat.sub_le stop extent)
  | star leading rest kept ih =>
      have keptWidened := Piece.fixedLast?_widenAll.trans kept
      have absent : .separator ∉ Piece.widenAll rest :=
        fun present => spares.tail.mem (Piece.separator_mem_widenAll.mp present) rfl
      rw [Piece.widenAll, Piece.widen, accepts_star_whole whole kept inside widens,
        accepts_globstar_whole absent keptWidened inside]
      apply exists_within_congr
      intro last low bound
      exact ih spares.tail bound (widens.later whole low fun _ => rfl)
  | globstar leading rest kept _ ih =>
      have keptWidened := Piece.fixedLast?_widenAll.trans kept
      have absent : .separator ∉ rest := fun present => spares.tail.mem present rfl
      have absentWidened := mt Piece.separator_mem_widenAll.mp absent
      rw [Piece.widenAll, Piece.widen, accepts_globstar_whole absent kept inside,
        accepts_globstar_whole absentWidened keptWidened inside]
      apply exists_within_congr
      intro last low bound
      exact ih spares.tail bound (widens.later whole low fun _ => rfl)
  | list leading quantifier alternatives rest kept ihAlternatives ih =>
      have keptWidened := Piece.fixedLast?_widenAll.trans kept
      rw [Piece.widenAll, Piece.widen, accepts_list kept inside, accepts_list keptWidened inside]
      apply exists_within_congr
      intro last low bound
      rw [← takesList_widenEach whole low]
      · apply and_congr_right
        intro taken
        apply ih spares.tail bound
        apply widens.later whole low
        intro same
        subst same
        exact mayTakeNothing_of_takesList taken
      · intro alternative member i j since first final
        exact Bool.eq_iff_iff.mpr (ihAlternatives alternative member
          (spares.of_alternative List.mem_cons_self member) first
          (widens.alternative whole member since (Nat.le_trans final bound)))

end

end Subject

end Glob
