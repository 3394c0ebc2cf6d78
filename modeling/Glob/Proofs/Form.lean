import Mathlib.Data.Option.Basic
import Glob.Proofs.TwoEnded

/-!
The form of a sequence holds of all its matches: they have the length that it fixes, and no
separator if it cannot span components. So an alternative loses nothing where only the ends that
fit its form are tried.
-/

namespace Glob

namespace Piece

variable {options : Options} {piece last : Piece} {rest before pieces : List Piece}
  {alternatives : List (List Piece)} {length extent : Nat}

theorem matchLength?_cons : matchLength? (piece :: rest) = some length ↔
    ∃ width, piece.width? = some width ∧
      ∃ remaining, matchLength? rest = some remaining ∧ width + remaining = length := by
  simp [matchLength?, Option.bind_eq_some_iff]

theorem matchLength?_concat (takes : last.extent? = some extent)
    (fixes : matchLength? (before ++ [last]) = some length) :
    ∃ remaining, matchLength? before = some remaining ∧ remaining + extent = length := by
  induction before generalizing length with
  | nil =>
      obtain ⟨width, fixesLast, remaining, fixesNil, sum⟩ := matchLength?_cons.mp fixes
      rw [width?_of_extent? takes] at fixesLast
      cases fixesLast
      cases fixesNil
      exact ⟨0, rfl, by omega⟩
  | cons piece before ih =>
      obtain ⟨width, fixesPiece, remaining, fixesRest, sum⟩ := matchLength?_cons.mp fixes
      obtain ⟨shorter, fixesBefore, total⟩ := ih fixesRest
      exact ⟨width + shorter, matchLength?_cons.mpr ⟨width, fixesPiece, shorter, fixesBefore, rfl⟩,
        by omega⟩

theorem width?_of_mem (fixes : matchLength? pieces = some length) (present : piece ∈ pieces) :
    ∃ width, piece.width? = some width := by
  induction pieces generalizing length with
  | nil => cases present
  | cons first rest ih =>
      obtain ⟨width, fixesFirst, remaining, fixesRest, _⟩ := matchLength?_cons.mp fixes
      rcases List.mem_cons.mp present with rfl | later
      · exact ⟨width, fixesFirst⟩
      · exact ih fixesRest later

theorem notMem_globstar_of_matchLength? (fixes : matchLength? pieces = some length) :
    .globstar ∉ pieces := by
  intro present
  obtain ⟨_, fixesGlobstar⟩ := width?_of_mem fixes present
  cases fixesGlobstar

theorem matchLength?_of_commonLength? (common : commonLength? alternatives = some length) :
    ∀ alternative ∈ alternatives, matchLength? alternative = some length := by
  induction alternatives with
  | nil => cases common
  | cons first rest ih =>
      cases rest with
      | nil =>
          intro alternative member
          rw [List.mem_singleton.mp member]
          exact common
      | cons second rest =>
          obtain ⟨shared, fixesFirst, fixesRest⟩ := Option.bind_eq_some_iff.mp common
          obtain ⟨_, same, result⟩ := Option.bind_eq_some_iff.mp fixesRest
          cases result
          have agree : commonLength? (second :: rest) = some length :=
            eq_of_beq ((Option.guard_eq_some' _).mp same)
          intro alternative member
          rcases List.mem_cons.mp member with rfl | later
          · exact fixesFirst
          · exact ih agree alternative later

theorem maySpanComponents_eq_false :
    maySpanComponents options pieces = false ↔
      ∀ piece ∈ pieces, piece.maySpan options = false := by
  induction pieces with
  | nil => simp [maySpanComponents]
  | cons piece rest ih => simp [maySpanComponents, ih]

theorem someMaySpan_eq_false :
    someMaySpan options alternatives = false ↔
      ∀ alternative ∈ alternatives, maySpanComponents options alternative = false := by
  induction alternatives with
  | nil => simp [someMaySpan]
  | cons first rest ih => simp [someMaySpan, ih]

end Piece

namespace Subject

variable {subject : Subject} {holds : List Piece → Nat → Nat → Bool} {pieces : List Piece}
  {piece : Piece} {start last stop extent : Nat}

theorem unbroken_of_standsAt (stays : piece.maySpan subject.options = false)
    (takes : piece.extent? = some extent) (stands : subject.standsAt start piece = true) :
    subject.Unbroken start (start + extent) := by
  have plain : subject.isPlainAt start = true → subject.isSeparatorAt start = false := by
    intro plain
    simp only [isPlainAt, Bool.and_eq_true, Bool.not_eq_true'] at plain
    exact plain.1.2
  intro i low high
  cases piece with
  | separator => cases stays
  | literal text =>
      cases takes
      apply Bool.eq_false_iff.mpr
      intro separates
      obtain ⟨c, here, separator⟩ := isSeparatorAt_eq.mp separates
      have written := literalAt_iff.mp stands (i - start) (by omega)
      rw [show start + (i - start) = i by omega, here] at written
      cases written
      exact List.any_eq_false.mp stays _ (List.getElem_mem _) separator
  | anyChar =>
      cases takes
      obtain rfl : i = start := by omega
      exact plain stands
  | bracket members negated =>
      cases takes
      obtain rfl : i = start := by omega
      exact plain (Bool.and_eq_true_iff.mp stands).1
  | star | globstar | list => cases takes

theorem length_of_accepts {length : Nat} (fixes : Piece.matchLength? pieces = some length)
    (inside : start ≤ stop) (accepted : subject.accepts pieces start stop false = true) :
    stop = start + length := by
  generalize closed : false = leading at accepted
  induction leading, pieces using Piece.step_induction generalizing start stop length with
  | nil leading =>
      subst closed
      cases fixes
      exact Eq.symm (by simpa using accepts_nil.mp accepted)
  | trailing leading | inner leading next rest | globstar leading rest kept =>
      simpa using Piece.notMem_globstar_of_matchLength? fixes
  | fixed leading piece rest extent takes opens ih =>
      obtain ⟨width, fixesPiece, remaining, fixesRest, _⟩ := Piece.matchLength?_cons.mp fixes
      rw [Piece.width?_of_extent? takes] at fixesPiece
      cases fixesPiece
      obtain ⟨fits, _, held⟩ := (accepts_fixed takes opens).mp accepted
      have later := ih fixesRest fits closed held
      omega
  | cut leading piece rest final extent open_ found _ ih =>
      obtain ⟨_, takes, ends⟩ := Piece.fixedLast?_some found
      -- A final `**` and separator have no fixed length, so the last piece is taken off.
      rcases (accepts_cut open_ found).mp accepted with ⟨zero, _⟩ | ⟨fits, _, held⟩
      · exact absurd (mem_globstar_of_endsInZeroDirectories zero)
          (Piece.notMem_globstar_of_matchLength? fixes)
      · rw [ends, ← List.cons_append] at fixes
        obtain ⟨remaining, fixesBefore, _⟩ := Piece.matchLength?_concat takes fixes
        have before := ih fixesBefore (by omega) rfl held
        omega
  | star leading rest kept =>
      obtain ⟨_, fixesStar, _⟩ := Piece.matchLength?_cons.mp fixes
      cases fixesStar
  | list leading quantifier alternatives rest kept _ ih =>
      obtain ⟨width, fixesList, remaining, fixesRest, _⟩ := Piece.matchLength?_cons.mp fixes
      obtain ⟨middle, _, bound, takes, held⟩ := (accepts_list kept inside).mp accepted
      have later := ih fixesRest bound closed held
      cases quantifier with
      | exactlyOne =>
          obtain ⟨alternative, member, _, fits, _⟩ := takes
          rw [FitsForm, Piece.matchLength?_of_commonLength? fixesList alternative member] at fits
          simp only at fits
          omega
      | zeroOrOne | zeroOrMore | oneOrMore | negated => cases fixesList

theorem unbroken_of_accepts (stays : Piece.maySpanComponents subject.options pieces = false)
    (inside : start ≤ stop) (accepted : subject.accepts pieces start stop false = true) :
    subject.Unbroken start stop := by
  have whole := Piece.maySpanComponents_eq_false.mp stays
  clear stays
  generalize closed : false = leading at accepted
  induction leading, pieces using Piece.step_induction generalizing start stop with
  | nil leading =>
      subst closed
      obtain rfl : start = stop := by simpa using accepts_nil.mp accepted
      exact unbroken_self start
  | trailing leading | inner leading next rest => cases whole .separator List.mem_cons_self
  | globstar leading rest kept => cases whole .globstar List.mem_cons_self
  | fixed leading piece rest extent takes opens ih =>
      obtain ⟨own, later⟩ := List.forall_mem_cons.mp whole
      obtain ⟨fits, stands, held⟩ := (accepts_fixed takes opens).mp accepted
      exact unbroken_append (unbroken_of_standsAt own takes stands) (ih fits later closed held)
  | cut leading piece rest final extent open_ found _ ih =>
      obtain ⟨_, takes, ends⟩ := Piece.fixedLast?_some found
      rcases (accepts_cut open_ found).mp accepted with ⟨zero, _⟩ | ⟨fits, stands, held⟩
      · cases whole .globstar (mem_globstar_of_endsInZeroDirectories zero)
      · rw [ends, ← List.cons_append] at whole
        obtain ⟨before, own⟩ := List.forall_mem_append.mp whole
        have final := unbroken_of_standsAt (own _ List.mem_cons_self) takes stands
        rw [Nat.sub_add_cancel (by omega)] at final
        exact unbroken_append (ih (by omega) before rfl held) final
  | star leading rest kept ih =>
      obtain ⟨_, middle, low, bound, clear, held⟩ := (accepts_star kept inside).mp accepted
      exact unbroken_append clear (ih bound (List.forall_mem_cons.mp whole).2 closed held)
  | list leading quantifier alternatives rest kept ihAlternatives ih =>
      obtain ⟨own, later⟩ := List.forall_mem_cons.mp whole
      have each := Piece.someMaySpan_eq_false.mp own
      obtain ⟨middle, low, bound, takes, held⟩ := (accepts_list kept inside).mp accepted
      refine unbroken_append ?_ (ih bound later closed held)
      by_cases negative : quantifier = .negated
      · subst negative
        exact takes.1
      · apply holds_of_takesList negative unbroken_self (fun _ _ _ => unbroken_append) low _ takes
        intro alternative member i j first _ taken
        exact ihAlternatives alternative member first
          (Piece.maySpanComponents_eq_false.mp (each alternative member)) rfl taken

theorem fitsForm_of_accepts (inside : start ≤ stop)
    (accepted : subject.accepts pieces start stop false = true) :
    subject.FitsForm pieces start stop := by
  unfold FitsForm
  cases fixes : Piece.matchLength? pieces with
  | some length => exact length_of_accepts fixes inside accepted
  | none => exact fun stays => unbroken_of_accepts stays inside accepted

/-- One occurrence takes what an alternative matches: no end is missed. -/
theorem takesOnce_iff_takesAny {alternatives : List (List Piece)} (inside : start ≤ last) :
    subject.TakesOnce subject.acceptsWindow alternatives start last ↔
      TakesAny subject.acceptsWindow alternatives start last := by
  apply exists_congr
  intro alternative
  apply and_congr_right
  intro _
  constructor
  · exact fun taken => taken.2.2
  · exact fun accepted => ⟨inside, fitsForm_of_accepts inside accepted, accepted⟩

end Subject

end Glob
