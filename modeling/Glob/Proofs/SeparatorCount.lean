import Mathlib.Algebra.GroupWithZero.Nat
import Glob.Proofs.Form
import Glob.Proofs.ListLaws

/-!
How many separators a match has. Where no `**` is, and no list writes a separator, every separator
of the text is one that the pattern writes outside of its lists: no other piece takes any.
-/

namespace Glob

namespace Piece

def separators (options : Options) : Piece → Nat
  | separator => 1
  | literal text => text.countP options.isSeparator
  | anyChar | bracket .. | star | globstar | list .. => 0

/-- The number of separators that a sequence writes, outside of its lists. -/
def writtenSeparators (options : Options) (pieces : List Piece) : Nat :=
  (pieces.map (·.separators options)).sum

variable {options : Options} {piece : Piece} {pieces : List Piece}

theorem writtenSeparators_cons {rest : List Piece} :
    writtenSeparators options (piece :: rest) =
      piece.separators options + writtenSeparators options rest :=
  rfl

theorem writtenSeparators_append (before after : List Piece) :
    writtenSeparators options (before ++ after) =
      writtenSeparators options before + writtenSeparators options after := by
  simp [writtenSeparators]

theorem maySpanComponents_of_written_eq_zero (single : ∀ part ∈ sequences pieces, .globstar ∉ part)
    (none : ∀ part ∈ sequences pieces, writtenSeparators options part = 0) :
    maySpanComponents options pieces = false := by
  induction pieces using depth_induction with
  | step pieces ih =>
      apply maySpanComponents_eq_false.mpr
      intro piece present
      have written : piece.separators options = 0 :=
        List.sum_eq_zero_iff_forall_eq_nat.mp (none pieces mem_sequences_self) _
          (List.mem_map_of_mem present)
      cases piece with
      | separator => cases written
      | literal text => simpa [maySpan] using List.countP_eq_zero.mp written
      | globstar => exact absurd present (single pieces mem_sequences_self)
      | anyChar | bracket | star => rfl
      | list quantifier alternatives =>
          apply someMaySpan_eq_false.mpr
          intro alternative member
          apply ih quantifier alternatives present alternative member
          · intro part deep
            exact single part (mem_sequences_of_alternative present member deep)
          · intro part deep
            exact none part (mem_sequences_of_alternative present member deep)

end Piece

namespace Subject

variable {subject : Subject} {piece : Piece} {pieces : List Piece}
  {start middle stop extent : Nat}

def separatorsWithin (subject : Subject) (start stop : Nat) : Nat :=
  (List.range' start (stop - start)).countP subject.isSeparatorAt

theorem separatorsWithin_append (low : start ≤ middle) (bound : middle ≤ stop) :
    subject.separatorsWithin start stop =
      subject.separatorsWithin start middle + subject.separatorsWithin middle stop := by
  have whole : middle - start + (stop - middle) = stop - start := by omega
  have split := List.range'_append_1 (s := start) (m := middle - start) (n := stop - middle)
  rw [Nat.add_sub_cancel' low, whole] at split
  rw [separatorsWithin, ← split, List.countP_append]
  rfl

theorem separatorsWithin_of_unbroken (clear : subject.Unbroken start stop) :
    subject.separatorsWithin start stop = 0 := by
  apply List.countP_eq_zero.mpr
  intro i within
  have ⟨low, high⟩ := List.mem_range'_1.mp within
  rw [clear i low (by omega)]
  exact Bool.false_ne_true

theorem separatorsWithin_of_literalAt {text : List Char}
    (stands : subject.literalAt text start = true) :
    subject.separatorsWithin start (start + text.length) =
      text.countP subject.options.isSeparator := by
  rw [separatorsWithin, Nat.add_sub_cancel_left]
  induction text generalizing start with
  | nil => rfl
  | cons c rest ih =>
      simp only [literalAt, Bool.and_eq_true, beq_iff_eq] at stands
      obtain ⟨here, later⟩ := stands
      rw [List.length_cons, List.range'_succ, List.countP_cons, List.countP_cons, ih later,
        isSeparatorAt, here, Option.any_some]

theorem separatorsWithin_of_standsAt (takes : piece.extent? = some extent)
    (stands : subject.standsAt start piece = true) :
    subject.separatorsWithin start (start + extent) = piece.separators subject.options := by
  have single : subject.separatorsWithin start (start + 1) =
      if subject.isSeparatorAt start = true then 1 else 0 := by
    rw [separatorsWithin, Nat.add_sub_cancel_left, List.range'_one, List.countP_singleton]
  have plain (plain : subject.isPlainAt start = true) :
      subject.separatorsWithin start (start + 1) = 0 := by
    simp only [isPlainAt, Bool.and_eq_true, Bool.not_eq_true'] at plain
    rw [single, plain.1.2]
    rfl
  cases piece with
  | separator =>
      cases takes
      have separates : subject.isSeparatorAt start = true := stands
      rw [single, if_pos separates]
      rfl
  | literal text =>
      cases takes
      exact separatorsWithin_of_literalAt stands
  | anyChar =>
      cases takes
      exact plain stands
  | bracket members negated =>
      cases takes
      exact plain (Bool.and_eq_true_iff.mp stands).1
  | star | globstar | list => cases takes

/-- Every separator of a match is one that the sequence writes, if all pieces that could span
components are of fixed extent. -/
theorem separatorsWithin_of_accepts
    (stays : ∀ piece ∈ pieces, piece.extent? = none → piece.maySpan subject.options = false)
    (inside : start ≤ stop) (accepted : subject.accepts pieces start stop false = true) :
    subject.separatorsWithin start stop = Piece.writtenSeparators subject.options pieces := by
  generalize closed : false = leading at accepted
  induction leading, pieces using Piece.step_induction generalizing start stop with
  | nil leading =>
      subst closed
      obtain rfl : start = stop := by simpa using accepts_nil.mp accepted
      exact separatorsWithin_of_unbroken (unbroken_self start)
  | trailing leading | inner leading next rest => cases stays .globstar (by simp) rfl
  | globstar leading rest kept => cases stays .globstar List.mem_cons_self rfl
  | fixed leading piece rest extent takes apart ih =>
      obtain ⟨fits, stands, held⟩ := (accepts_fixed takes apart).mp accepted
      have later := ih (List.forall_mem_cons.mp stays).2 fits closed held
      rw [separatorsWithin_append (Nat.le_add_right start extent) fits,
        separatorsWithin_of_standsAt takes stands, later, Piece.writtenSeparators_cons]
  | cut leading piece rest last extent open_ found _ ih =>
      obtain ⟨_, takes, ends⟩ := Piece.fixedLast?_some found
      -- Only a `**` could let the last piece match nothing, so it is taken off.
      rcases (accepts_cut open_ found).mp accepted with ⟨zero, _⟩ | ⟨fits, stands, held⟩
      · cases stays .globstar (mem_globstar_of_endsInZeroDirectories zero) rfl
      · have fewer : piece :: rest.dropLast ⊆ piece :: rest :=
          List.cons_subset_cons piece (List.dropLast_subset rest)
        have before := ih (fun piece present => stays piece (fewer present)) (by omega) rfl held
        have final := separatorsWithin_of_standsAt takes stands
        rw [Nat.sub_add_cancel (by omega)] at final
        have written : Piece.writtenSeparators subject.options (piece :: rest.dropLast ++ [last]) =
            _ := Piece.writtenSeparators_append (piece :: rest.dropLast) [last]
        rw [List.cons_append, ← ends] at written
        rw [separatorsWithin_append (by omega) (Nat.sub_le stop extent), before, final, written]
        rfl
  | star leading rest kept ih =>
      obtain ⟨_, middle, low, bound, clear, held⟩ := (accepts_star kept inside).mp accepted
      have later := ih (List.forall_mem_cons.mp stays).2 bound closed held
      rw [separatorsWithin_append low bound, separatorsWithin_of_unbroken clear, later,
        Piece.writtenSeparators_cons]
      rfl
  | list leading quantifier alternatives rest kept _ ih =>
      obtain ⟨own, after⟩ := List.forall_mem_cons.mp stays
      obtain ⟨middle, low, bound, takes, held⟩ := (accepts_list kept inside).mp accepted
      have later := ih after bound closed held
      have alone : subject.accepts [.list quantifier alternatives] start middle false = true :=
        (accepts_list rfl low).mpr
          ⟨middle, low, Nat.le_refl middle, takes, accepts_nil.mpr (.inl rfl)⟩
      have clear : subject.Unbroken start middle := by
        apply unbroken_of_accepts _ low alone
        exact Piece.maySpanComponents_eq_false.mpr (List.forall_mem_singleton.mpr (own rfl))
      rw [separatorsWithin_append low bound, separatorsWithin_of_unbroken clear, later,
        Piece.writtenSeparators_cons]
      rfl

end Subject

namespace Pattern

variable {text : String} {pieces : List Piece}

/-- Without `**`, and with no separator inside of lists, an alternative matches only texts that have
as many separators as it writes. -/
theorem countP_isSeparator_of_accepts (pattern : Pattern)
    (closed : pattern.options.leadingDirectories = false)
    (whole : pattern.options.ignoresTrailingSeparator = false)
    (single : ∀ pieces ∈ pattern.alternatives, ∀ part ∈ Piece.sequences pieces, .globstar ∉ part)
    (outside : ∀ pieces ∈ pattern.alternatives, ∀ part ∈ Piece.inner pieces,
      Piece.writtenSeparators pattern.options part = 0)
    (present : pieces ∈ pattern.alternatives)
    (accepted : (ofSequence pattern.options pieces).accepts text = true) :
    text.toList.countP pattern.options.isSeparator =
      Piece.writtenSeparators pattern.options pieces := by
  obtain ⟨stop, reads, held⟩ := accepts_ofSequence_iff.mp accepted
  obtain rfl : stop = text.toList.length := by simpa [Options.MayReadTo, whole] using reads
  rw [closed] at held
  have stays : ∀ piece ∈ pieces, piece.extent? = none →
      piece.maySpan pattern.options = false := by
    intro piece within open_
    cases piece with
    | star => rfl
    | globstar => exact absurd within (single pieces present pieces Piece.mem_sequences_self)
    | list quantifier alternatives =>
        apply Piece.someMaySpan_eq_false.mpr
        intro alternative member
        apply Piece.maySpanComponents_of_written_eq_zero
        · intro part deep
          exact single pieces present part (Piece.mem_sequences_of_alternative within member deep)
        · intro part deep
          have inside := Piece.mem_allInner.mpr ⟨alternative, member, deep⟩
          exact outside pieces present part (Piece.mem_inner.mpr ⟨_, within, inside⟩)
    | separator | literal | anyChar | bracket => cases open_
  have written := Subject.separatorsWithin_of_accepts stays (Nat.zero_le _) held
  have stands : (Subject.mk text.toList.toArray pattern.options).literalAt text.toList 0 = true :=
    Subject.literalAt_iff.mpr (by simp)
  have counted := Subject.separatorsWithin_of_literalAt stands
  rw [Nat.zero_add] at counted
  exact counted.symm.trans written

theorem countP_isSeparator_of_accepts_lists :
    let options : Options := { ignoresTrailingSeparator := false, extraSeparators := [':'] }
    let pieces : List Piece := [.star, .separator, .list .oneOrMore
      [[.anyChar, .list .negated [[.literal ['a']], [.star, .literal ['b']]]]], .literal [':', 'c']]
    let pattern : Pattern := ⟨"*/+(?!(a|*b)):c", [pieces], options⟩
    compile options pattern.source = .ok pattern ∧
      (∀ part ∈ Piece.sequences pieces, .globstar ∉ part) ∧
      (∀ part ∈ Piece.inner pieces, Piece.writtenSeparators options part = 0) ∧
      (ofSequence options pieces).accepts "x:yzz:c" = true ∧
      "x:yzz:c".toList.countP options.isSeparator = Piece.writtenSeparators options pieces ∧
      Piece.writtenSeparators options pieces = 2 :=
  have single : ∀ part ∈ Piece.sequences [.star, .separator, .list .oneOrMore
      [[.anyChar, .list .negated [[.literal ['a']], [.star, .literal ['b']]]]],
      .literal [':', 'c']], .globstar ∉ part := by
    simp [Piece.sequences, Piece.inner, Piece.innerOf, Piece.allInner]
  have outside : ∀ part ∈ Piece.inner [.star, .separator, .list .oneOrMore
      [[.anyChar, .list .negated [[.literal ['a']], [.star, .literal ['b']]]]],
      .literal [':', 'c']],
      Piece.writtenSeparators { ignoresTrailingSeparator := false, extraSeparators := [':'] } part =
        0 := by
    decide
  have accepted : (ofSequence { ignoresTrailingSeparator := false, extraSeparators := [':'] }
      [.star, .separator, .list .oneOrMore
        [[.anyChar, .list .negated [[.literal ['a']], [.star, .literal ['b']]]]],
        .literal [':', 'c']]).accepts "x:yzz:c" = true := by
    decide +kernel
  ⟨by cbv, single, outside, accepted,
    countP_isSeparator_of_accepts ⟨"*/+(?!(a|*b)):c", [_], _⟩ rfl rfl
      (List.forall_mem_singleton.mpr single) (List.forall_mem_singleton.mpr outside)
      List.mem_cons_self accepted,
    by decide⟩

end Pattern

end Glob
