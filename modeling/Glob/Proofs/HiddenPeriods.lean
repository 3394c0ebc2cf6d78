import Glob.Pattern
import Glob.Proofs.Depth
import Glob.Proofs.TwoEnded

/-!
Hidden periods. A pattern takes them only where it writes a period, excludes something, or crosses
components: all other pieces, lists of them included, leave every hidden period of a text alone.
-/

namespace Glob

namespace Piece

/-- Whether a piece leaves hidden periods alone, as far as its form shows it. What the alternatives
of a list match is up to their own pieces. -/
def sparesPeriods : Piece → Bool
  | literal text => !text.contains '.'
  | list quantifier _ => quantifier != .negated
  | globstar => false
  | separator | anyChar | bracket .. | star => true

theorem notMem_globstar {pieces : List Piece}
    (spares : Everywhere (·.sparesPeriods = true) pieces) : .globstar ∉ pieces := by
  intro present
  have spared := spares.mem present
  cases spared

end Piece

namespace Subject

variable {subject : Subject} {holds : List Piece → Nat → Nat → Bool} {pieces : List Piece}
  {piece : Piece} {start middle last stop extent : Nat}

def Visible (subject : Subject) (start last : Nat) : Prop :=
  ∀ i, start ≤ i → i < last → subject.isHiddenPeriod i = false

theorem visible_self (start : Nat) : subject.Visible start start := by
  intro i low high
  omega

theorem visible_append (left : subject.Visible start middle)
    (right : subject.Visible middle last) : subject.Visible start last := by
  intro i low high
  by_cases before : i < middle
  · exact left i low before
  · exact right i (Nat.le_of_not_lt before) high

theorem visible_of_unbroken (clear : subject.Unbroken start last)
    (first : start < last → subject.isHiddenPeriod start = false) :
    subject.Visible start last := by
  intro i low high
  apply Bool.eq_false_iff.mpr
  intro hidden
  have ⟨_, _, starts⟩ := isHiddenPeriod_iff.mp hidden
  by_cases same : i = start
  · rw [same, first (by omega)] at hidden
    exact Bool.false_ne_true hidden
  · rcases atSegmentStart_iff.mp starts with zero | separates
    · omega
    · rw [clear (i - 1) (by omega) (by omega)] at separates
      exact Bool.false_ne_true separates

theorem visible_of_standsAt (apart : subject.options.isSeparator '.' = false)
    (spares : piece.sparesPeriods = true) (takes : piece.extent? = some extent)
    (stands : subject.standsAt start piece = true) : subject.Visible start (start + extent) := by
  intro i low high
  apply Bool.eq_false_iff.mpr
  intro hidden
  have ⟨_, period, _⟩ := isHiddenPeriod_iff.mp hidden
  cases piece with
  | literal text =>
      cases takes
      have here := literalAt_iff.mp stands (i - start) (by omega)
      rw [show start + (i - start) = i by omega, period] at here
      have written := List.getElem_mem (l := text) (n := i - start) (by omega)
      rw [← Option.some.inj here] at written
      simp [Piece.sparesPeriods, written] at spares
  | separator =>
      cases takes
      obtain rfl : i = start := by omega
      obtain ⟨c, here, separates⟩ := isSeparatorAt_eq.mp stands
      rw [period] at here
      cases here
      rw [apart] at separates
      exact Bool.false_ne_true separates
  | anyChar =>
      cases takes
      obtain rfl : i = start := by omega
      simp [standsAt, isPlainAt, hidden] at stands
  | bracket members negated =>
      cases takes
      obtain rfl : i = start := by omega
      simp [standsAt, isPlainAt, hidden] at stands
  | star | globstar | list => cases takes

theorem visible_of_accepts (apart : subject.options.isSeparator '.' = false)
    (spares : Piece.Everywhere (·.sparesPeriods = true) pieces) (inside : start ≤ stop)
    (accepted : subject.accepts pieces start stop false = true) : subject.Visible start stop := by
  generalize closed : false = leading at accepted
  induction leading, pieces using Piece.step_induction generalizing start stop with
  | nil leading =>
      subst closed
      obtain rfl : start = stop := by simpa using accepts_nil.mp accepted
      exact visible_self start
  | trailing leading => simpa using Piece.notMem_globstar spares
  | inner leading next rest => simpa using Piece.notMem_globstar spares
  | globstar leading rest kept => simpa using Piece.notMem_globstar spares
  | fixed leading piece rest extent takes opens ih =>
      obtain ⟨fits, stands, held⟩ := (accepts_fixed takes opens).mp accepted
      have own := visible_of_standsAt apart (spares.mem List.mem_cons_self) takes stands
      exact visible_append own (ih spares.tail fits closed held)
  | cut leading piece rest final extent open_ found _ ih =>
      obtain ⟨_, takes, ends⟩ := Piece.fixedLast?_some found
      -- The rule about a final `**` and separator needs a `**`, so the last piece is taken off.
      rcases (accepts_cut open_ found).mp accepted with ⟨zero, _⟩ | ⟨fits, stands, held⟩
      · exact absurd (mem_globstar_of_endsInZeroDirectories zero) (Piece.notMem_globstar spares)
      · have kept : Piece.Everywhere (·.sparesPeriods = true) (piece :: rest.dropLast) :=
          spares.subset (List.cons_subset_cons piece (List.dropLast_subset rest))
        have present : final ∈ piece :: rest := by
          rw [ends]
          simp
        have own := visible_of_standsAt apart (spares.mem present) takes stands
        rw [Nat.sub_add_cancel (by omega)] at own
        exact visible_append (ih kept (by omega) rfl held) own
  | star leading rest kept ih =>
      obtain ⟨shown, middle, low, bound, clear, held⟩ := (accepts_star kept inside).mp accepted
      have own : subject.Visible start middle := by
        apply visible_of_unbroken clear
        intro further
        apply Bool.eq_false_iff.mpr
        intro hidden
        exact shown ⟨by omega, hidden⟩
      exact visible_append own (ih spares.tail bound closed held)
  | list leading quantifier alternatives rest kept ihAlternatives ih =>
      obtain ⟨middle, low, bound, takes, held⟩ := (accepts_list kept inside).mp accepted
      have positive : quantifier ≠ .negated := by
        have spared := spares.mem List.mem_cons_self
        simpa [Piece.sparesPeriods] using spared
      have own : subject.Visible start middle := by
        apply holds_of_takesList positive visible_self (fun _ _ _ => visible_append) low _ takes
        intro alternative member i j first _ taken
        exact ihAlternatives alternative member (spares.of_alternative List.mem_cons_self member)
          first rfl taken
      exact visible_append own (ih spares.tail bound closed held)

theorem isHiddenPeriod_of_eq {options : Options} {text before after : List Char}
    (periods : options.explicitLeadingPeriods = true) (split : text = before ++ '.' :: after)
    (starts : before = [] ∨ ∃ c, before.getLast? = some c ∧ options.isSeparator c = true) :
    (Subject.mk text.toArray options).isHiddenPeriod before.length = true := by
  apply isHiddenPeriod_iff.mpr
  refine ⟨periods, by simp [split], atSegmentStart_iff.mpr ?_⟩
  rcases starts with rfl | ⟨c, ends, separates⟩
  · exact .inl rfl
  · right
    have nonempty : before ≠ [] := by
      intro same
      subst same
      cases ends
    have positive := List.length_pos_iff.mpr nonempty
    apply isSeparatorAt_eq.mpr
    refine ⟨c, ?_, separates⟩
    rw [List.getLast?_eq_getElem?] at ends
    simp [split, List.getElem?_append_left (show before.length - 1 < before.length by omega), ends]

end Subject

namespace Pattern

variable {pattern : Pattern} {text : String} {before after : List Char}

/-- A text with a hidden period is matched by no pattern that spares them, not even if a separator
at its end is ignored. -/
theorem accepts_eq_false_of_hidden_period
    (periods : pattern.options.explicitLeadingPeriods = true)
    (closed : pattern.options.leadingDirectories = false)
    (apart : pattern.options.isSeparator '.' = false)
    (spares : ∀ pieces ∈ pattern.alternatives, Piece.Everywhere (·.sparesPeriods = true) pieces)
    (split : text.toList = before ++ '.' :: after)
    (starts : before = [] ∨ ∃ c, before.getLast? = some c ∧ pattern.options.isSeparator c = true) :
    pattern.accepts text = false := by
  have hidden := Subject.isHiddenPeriod_of_eq periods split starts
  have refused (stop : Nat) (beyond : before.length < stop) :
      pattern.acceptsUpTo text.toList.toArray stop = false := by
    apply Bool.eq_false_iff.mpr
    intro accepted
    obtain ⟨pieces, present, held⟩ := List.any_eq_true.mp accepted
    rw [closed] at held
    have seen := Subject.visible_of_accepts apart (spares pieces present) (Nat.zero_le stop) held
    rw [seen before.length (Nat.zero_le _) beyond] at hidden
    exact Bool.false_ne_true hidden
  have length : text.toList.length = before.length + 1 + after.length := by
    rw [split]
    simp
    omega
  rw [accepts, acceptsChars, refused _ (by omega), Bool.false_or, Bool.and_eq_false_iff]
  by_cases further : after = []
  · left
    simp [split, further, apart]
  · right
    have positive := List.length_pos_iff.mpr further
    exact refused _ (by omega)

theorem accepts_eq_false_of_hidden_period_repeated :
    let pattern : Pattern := ⟨"*/*([!a]|@(?|*b))", [[.star, .separator, .list .zeroOrMore
      [[.bracket [.single 'a'] true],
        [.list .exactlyOne [[.anyChar], [.star, .literal ['b']]]]]]], { baseLetterRanges := true }⟩
    (∀ pieces ∈ pattern.alternatives, Piece.Everywhere (·.sparesPeriods = true) pieces) ∧
      "c/.b/".toList = ['c', '/'] ++ '.' :: ['b', '/'] ∧
      pattern.options.isSeparator '.' = false ∧ pattern.options.isSeparator '/' = true ∧
      pattern.accepts "c/.b/" = false :=
  have spares : ∀ pieces ∈ [[Piece.star, .separator, .list .zeroOrMore
      [[.bracket [.single 'a'] true],
        [.list .exactlyOne [[.anyChar], [.star, .literal ['b']]]]]]],
      Piece.Everywhere (·.sparesPeriods = true) pieces := by
    decide
  have split : "c/.b/".toList = ['c', '/'] ++ '.' :: ['b', '/'] := by decide
  ⟨spares, split, by decide, by decide, accepts_eq_false_of_hidden_period rfl rfl (by decide) spares
    split (.inr ⟨'/', by decide, by decide⟩)⟩

end Pattern

end Glob
