import Glob.Proofs.BraceProduct

/-!
A brace that is not closed. It stands for itself, and with it everything that follows: the groups
after it are not looked for, so a text is left alone if and only if its first brace is not closed.
-/

namespace Glob

namespace Braces

open Glyph

variable {escapes : Bool} {depth : Nat} {glyph : Glyph} {glyphs rest : List Glyph}
  {chars : List Char}

/-- Whether a group is closed by one of the glyphs, where `depth` braces are open inside it: all
braces up to that one have their partners. -/
def Closes (depth : Nat) (glyphs : List Glyph) : Prop :=
  ∃ inside after, glyphs = inside ++ .plain '}' :: after ∧ balances depth inside = true

theorem not_closes_nil : ¬Closes depth [] := by
  rintro ⟨inside, after, none, -⟩
  exact List.append_ne_nil_of_right_ne_nil inside (List.cons_ne_nil _ after) none.symm

theorem closes_closing : Closes 0 (.plain '}' :: rest) :=
  ⟨[], rest, rfl, rfl⟩

theorem closes_cons (stays : ¬(depth = 0 ∧ glyph = .plain '}')) :
    Closes depth (glyph :: rest) ↔ Closes (depthAfter depth glyph) rest := by
  constructor
  · rintro ⟨inside, after, whole, balanced⟩
    cases inside with
    | nil =>
        obtain ⟨rfl, rfl⟩ := List.cons.inj whole
        exact absurd ⟨by simpa [balances] using balanced, rfl⟩ stays
    | cons first inside =>
        obtain ⟨rfl, rfl⟩ := List.cons.inj whole
        rw [balances_cons stays] at balanced
        exact ⟨inside, after, rfl, balanced⟩
  · rintro ⟨inside, after, rfl, balanced⟩
    refine ⟨glyph :: inside, after, rfl, ?_⟩
    rw [balances_cons stays]
    exact balanced

theorem splitGroup?_eq_none_iff : splitGroup? depth glyphs = none ↔ ¬Closes depth glyphs := by
  fun_induction splitGroup? depth glyphs with
  | case1 => simp [not_closes_nil]
  | case2 rest => simp [closes_closing]
  | case3 rest ih =>
      rw [Option.map_eq_none_iff, ih, closes_cons (by simp)]
      rfl
  | case4 depth glyph rest closing dividing ih =>
      rw [Option.map_eq_none_iff, ih, closes_cons fun both => closing both.1 both.2]

instance : Decidable (Closes depth glyphs) :=
  decidable_of_iff ((splitGroup? depth glyphs).isSome = true) (by
    rw [← Bool.not_eq_false, Option.isSome_eq_false_iff, Option.isNone_iff_eq_none,
      splitGroup?_eq_none_iff, not_not])

/-- The first brace that opens a group is not closed, if there is one. -/
def FirstStaysOpen (escapes : Bool) (chars : List Char) : Prop :=
  ∀ before rest, ofText escapes chars = before ++ .plain '{' :: rest → .plain '{' ∉ before →
    ¬Closes 0 rest

theorem group?_eq_none_iff : group? escapes chars = none ↔ FirstStaysOpen escapes chars := by
  constructor
  · intro none before rest read flat
    rw [group?_of_ofText read flat, Option.map_eq_none_iff] at none
    exact splitGroup?_eq_none_iff.mp none
  · intro unclosed
    by_cases opened : .plain '{' ∈ ofText escapes chars
    · obtain ⟨before, rest, read, flat⟩ := List.eq_append_cons_of_mem opened
      rw [group?_of_ofText read flat, Option.map_eq_none_iff]
      exact splitGroup?_eq_none_iff.mpr (unclosed before rest read flat)
    · exact group?_eq_none_of_flat opened

instance : Decidable (FirstStaysOpen escapes chars) :=
  decidable_of_iff _ group?_eq_none_iff

theorem length_lt_of_mem_expand {group : Group} {result : List Char}
    (found : group? escapes chars = some group) (member : result ∈ expand escapes chars) :
    result.length < chars.length := by
  obtain ⟨alternative, listed, inner, expanded, combined⟩ :=
    (mem_expand_of_group_eq_some found).mp member
  have replaced := yields_iff_mem_expand.mpr expanded
  have calls : Calls escapes chars (group.before ++ inner ++ group.after) :=
    .combined found listed replaced
  exact Nat.lt_of_le_of_lt (length_le_of_mem_expand combined) calls.length_lt

theorem expand_eq_self_iff : expand escapes chars = [chars] ↔ FirstStaysOpen escapes chars := by
  rw [← group?_eq_none_iff]
  constructor
  · intro alone
    cases found : group? escapes chars with
    | none => rfl
    | some group =>
        have itself : chars ∈ expand escapes chars := alone ▸ List.mem_singleton_self chars
        exact absurd (length_lt_of_mem_expand found itself) (Nat.lt_irrefl _)
  · exact expand_of_group_eq_none

/-- A brace that is not closed stands for itself, but so does all that follows it: what follows is
only expanded as it would be on its own if it has no group to begin with. A text is left alone if and
only if its first brace is not closed, whatever groups come after that one. -/
theorem expand_unclosed (escapes : Bool) :
    (∀ before rest : List Char, .plain '{' ∉ ofText escapes before →
      endsInEscape escapes before = false → ¬Closes 0 (ofText escapes rest) →
      expand escapes (before ++ '{' :: rest) = [before ++ '{' :: rest] ∧
        (expand escapes (before ++ '{' :: rest) =
            (expand escapes rest).map (fun result => before ++ '{' :: result) ↔
          FirstStaysOpen escapes rest)) ∧
      ∀ chars, expand escapes chars = [chars] ↔ FirstStaysOpen escapes chars := by
  refine ⟨?_, fun chars => expand_eq_self_iff⟩
  intro before rest flat settled unclosed
  have read : ofText escapes (before ++ '{' :: rest) =
      ofText escapes before ++ .plain '{' :: ofText escapes rest :=
    ofText_append settled ('{' :: rest)
  have alone : expand escapes (before ++ '{' :: rest) = [before ++ '{' :: rest] := by
    apply expand_of_group_eq_none
    rw [group?_of_ofText read flat, splitGroup?_eq_none_iff.mpr unclosed, Option.map_none]
  refine ⟨alone, ?_⟩
  rw [alone, ← expand_eq_self_iff]
  constructor
  · intro law
    obtain ⟨result, expanded, same⟩ := List.map_eq_singleton_iff.mp law.symm
    obtain ⟨-, rfl⟩ := List.cons.inj (List.append_cancel_left same)
    exact expanded
  · intro kept
    rw [kept, List.map_singleton]

/-- Before a group the law fails, and before another brace that is not closed it holds. -/
theorem expand_unclosed_escaped :
    let before := ['x', '}', '\\', '{']
    let group := ['{', 'a', ',', 'b', '}']
    let open_ := ['a', '\\', '}', '{', '{', 'b', '}']
    (.plain '{' ∉ ofText true before ∧ endsInEscape true before = false ∧
        ¬Closes 0 (ofText true group) ∧ ¬Closes 0 (ofText true open_)) ∧
      expand true (before ++ '{' :: group) = [before ++ '{' :: group] ∧
      expand true (before ++ '{' :: group) ≠
        (expand true group).map (fun result => before ++ '{' :: result) ∧
      expand true (before ++ '{' :: open_) =
        (expand true open_).map (fun result => before ++ '{' :: result) := by
  have flat : .plain '{' ∉ ofText true ['x', '}', '\\', '{'] := by decide
  have settled : endsInEscape true ['x', '}', '\\', '{'] = false := by decide
  have first : ¬Closes 0 (ofText true ['{', 'a', ',', 'b', '}']) := by decide
  have second : ¬Closes 0 (ofText true ['a', '\\', '}', '{', '{', 'b', '}']) := by decide
  obtain ⟨alone, law⟩ := (expand_unclosed true).1 _ _ flat settled first
  obtain ⟨-, kept⟩ := (expand_unclosed true).1 _ _ flat settled second
  refine ⟨⟨flat, settled, first, second⟩, alone, ?_, kept.mpr (by decide)⟩
  exact fun same => absurd (law.mp same) (by decide)

end Braces

end Glob
