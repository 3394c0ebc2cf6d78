import Glob.Braces
import Glob.Proofs.Checked

/-!
Expanding a text ends. It expands the alternatives of the first group, and then every result once
more, in the place of the group. Both are shorter than the text by at least the two braces, the
second because no result is longer than what it comes from.
-/

namespace Glob

namespace Braces

/-- What a text may come to when groups are replaced. Nothing here says that replacing them ends. -/
inductive Yields (escapes : Bool) : List Char → List Char → Prop where
  | alone {chars : List Char} (ungrouped : group? escapes chars = none) : Yields escapes chars chars
  | grouped {chars alternative inner result : List Char} {group : Group}
      (found : group? escapes chars = some group) (member : alternative ∈ group.alternatives)
      (replaced : Yields escapes alternative inner)
      (combined : Yields escapes (group.before ++ inner ++ group.after) result) :
      Yields escapes chars result

/-- What has to be expanded in order to expand a text. -/
inductive Calls (escapes : Bool) (chars : List Char) : List Char → Prop where
  | alternative {alternative : List Char} {group : Group}
      (found : group? escapes chars = some group) (member : alternative ∈ group.alternatives) :
      Calls escapes chars alternative
  | combined {alternative inner : List Char} {group : Group}
      (found : group? escapes chars = some group) (member : alternative ∈ group.alternatives)
      (replaced : Yields escapes alternative inner) :
      Calls escapes chars (group.before ++ inner ++ group.after)

variable {escapes : Bool} {chars result called : List Char} {group : Group}

theorem Yields.length_le (yields : Yields escapes chars result) :
    result.length ≤ chars.length := by
  induction yields with
  | alone => exact Nat.le_refl _
  | grouped found member _ _ replaced combined =>
      have shorter := length_of_mem_alternatives found member
      simp only [List.length_append] at combined
      omega

theorem Calls.length_le (calls : Calls escapes chars called) :
    called.length + 2 ≤ chars.length := by
  cases calls with
  | alternative found member =>
      have shorter := length_of_mem_alternatives found member
      omega
  | combined found member replaced =>
      have shorter := length_of_mem_alternatives found member
      have bound := replaced.length_le
      simp only [List.length_append]
      omega

theorem Calls.length_lt (calls : Calls escapes chars called) : called.length < chars.length :=
  Nat.lt_of_succ_lt calls.length_le

theorem calls_wellFounded (escapes : Bool) :
    WellFounded fun called chars => Calls escapes chars called :=
  Subrelation.wf Calls.length_lt (measure List.length).wf

theorem mem_expand_of_group_eq_some (found : group? escapes chars = some group) :
    result ∈ expand escapes chars ↔ ∃ alternative ∈ group.alternatives,
      ∃ inner ∈ expand escapes alternative,
        result ∈ expand escapes (group.before ++ inner ++ group.after) := by
  simp only [expand_of_group_eq_some found, List.mem_flatMap]

theorem yields_iff_mem_expand : Yields escapes chars result ↔ result ∈ expand escapes chars := by
  constructor
  · intro yields
    induction yields with
    | alone ungrouped =>
        rw [expand_of_group_eq_none ungrouped]
        exact List.mem_singleton_self _
    | grouped found member _ _ replaced combined =>
        exact (mem_expand_of_group_eq_some found).mpr ⟨_, member, _, replaced, combined⟩
  · intro present
    induction chars using (calls_wellFounded escapes).induction generalizing result with
    | _ chars ih =>
        cases found : group? escapes chars with
        | none =>
            rw [expand_of_group_eq_none found] at present
            obtain rfl := List.mem_singleton.mp present
            exact .alone found
        | some group =>
            obtain ⟨alternative, member, inner, replaced, combined⟩ :=
              (mem_expand_of_group_eq_some found).mp present
            have first := ih alternative (.alternative found member) replaced
            exact .grouped found member first (ih _ (.combined found member first) combined)

theorem length_le_of_mem_expand (present : result ∈ expand escapes chars) :
    result.length ≤ chars.length :=
  (yields_iff_mem_expand.mpr present).length_le

@[elab_as_elim]
theorem expand_induction {motive : List Char → Prop} (escapes : Bool)
    (alone : ∀ chars, group? escapes chars = none → motive chars)
    (grouped : ∀ chars group, group? escapes chars = some group →
      (∀ alternative ∈ group.alternatives, motive alternative ∧
        ∀ inner ∈ expand escapes alternative, motive (group.before ++ inner ++ group.after)) →
      motive chars)
    (chars : List Char) : motive chars := by
  induction chars using (calls_wellFounded escapes).induction with
  | _ chars ih =>
      cases found : group? escapes chars with
      | none => exact alone chars found
      | some group =>
          apply grouped chars group found
          intro alternative member
          refine ⟨ih _ (.alternative found member), fun inner expanded => ?_⟩
          exact ih _ (.combined found member (yields_iff_mem_expand.mpr expanded))

theorem expand_ne_nil (escapes : Bool) (chars : List Char) : expand escapes chars ≠ [] := by
  induction chars using expand_induction escapes with
  | alone chars found =>
      rw [expand_of_group_eq_none found]
      exact List.cons_ne_nil _ _
  | grouped chars group found ih =>
      obtain ⟨glyphs, nonempty, same, _⟩ := eq_of_group found
      obtain ⟨alternative, member⟩ : ∃ alternative, alternative ∈ group.alternatives := by
        apply List.exists_mem_of_ne_nil
        rw [same]
        simpa using nonempty
      obtain ⟨notEmpty, later⟩ := ih alternative member
      obtain ⟨inner, expanded⟩ := List.exists_mem_of_ne_nil _ notEmpty
      obtain ⟨result, combined⟩ := List.exists_mem_of_ne_nil _ (later inner expanded)
      exact List.ne_nil_of_mem ((mem_expand_of_group_eq_some found).mpr
        ⟨alternative, member, inner, expanded, combined⟩)

/-- Expanding a text, where `call` expands what has to be expanded for it. -/
def expandBy (escapes : Bool) (call : List Char → Checked (List (List Char)))
    (chars : List Char) : Checked (List (List Char)) :=
  match group? escapes chars with
  | none => return [chars]
  | some group => group.alternatives.flatMapM fun alternative => do
    let inners ← call alternative
    inners.flatMapM fun inner => call (group.before ++ inner ++ group.after)

/-- Expanding a text with calls nested no deeper than `depth`. No bound on what the calls are made
for or come to is built in. -/
def expandWithin (escapes : Bool) : (depth : Nat) → List Char → Checked (List (List Char))
  | 0 => fun _ => .error .depth
  | depth + 1 => expandBy escapes (expandWithin escapes depth)

theorem expandBy_eq_ok {call : List Char → Checked (List (List Char))}
    (answers : ∀ called, Calls escapes chars called → call called = .ok (expand escapes called)) :
    expandBy escapes call chars = .ok (expand escapes chars) := by
  unfold expandBy
  cases found : group? escapes chars with
  | none =>
      rw [expand_of_group_eq_none found]
      rfl
  | some group =>
      rw [expand_of_group_eq_some found]
      apply Checked.flatMapM_eq_ok
      intro alternative member
      rw [answers alternative (.alternative found member), Checked.ok_bind]
      apply Checked.flatMapM_eq_ok
      intro inner expanded
      exact answers _ (.combined found member (yields_iff_mem_expand.mpr expanded))

theorem expandWithin_eq_ok {depth : Nat} (deep : chars.length / 2 < depth) :
    expandWithin escapes depth chars = .ok (expand escapes chars) := by
  induction depth generalizing chars with
  | zero => cases deep
  | succ depth ih =>
      apply expandBy_eq_ok
      intro called calls
      have shorter := calls.length_le
      exact ih (by omega)

/-- Expanding ends for every text, although it expands its own results once more: what has to be
expanded is shorter by at least two characters, no result is longer than the text, and there is one.
Calls that may be nested more deeply than half the length are never nested too deeply. -/
theorem expansion_ends (escapes : Bool) :
    (WellFounded fun called chars => Calls escapes chars called) ∧
    ∀ chars,
      (∀ depth, chars.length / 2 < depth →
        expandWithin escapes depth chars = .ok (expand escapes chars)) ∧
      (∀ result, Yields escapes chars result ↔ result ∈ expand escapes chars) ∧
      (∀ result ∈ expand escapes chars, result.length ≤ chars.length) ∧
      (∀ group, group? escapes chars = some group → ∀ alternative ∈ group.alternatives,
        alternative.length + 2 ≤ chars.length ∧
        ∀ inner ∈ expand escapes alternative,
          (group.before ++ inner ++ group.after).length + 2 ≤ chars.length) ∧
      expand escapes chars ≠ [] := by
  refine ⟨calls_wellFounded escapes, fun chars => ?_⟩
  refine ⟨fun depth deep => expandWithin_eq_ok deep, fun result => yields_iff_mem_expand,
    fun result present => length_le_of_mem_expand present, ?_, expand_ne_nil escapes chars⟩
  intro group found alternative member
  refine ⟨Calls.length_le (.alternative found member), fun inner expanded => ?_⟩
  exact Calls.length_le (.combined found member (yields_iff_mem_expand.mpr expanded))

theorem expansion_ends_nested :
    let chars := ['}', '{', 'a', '\\', ',', '{', 'b', ',', 'c', '}', ',', '}', '{', 'd']
    let alternative := ['a', '\\', ',', '{', 'b', ',', 'c', '}']
    let group : Group := ⟨['}'], [alternative, []], ['{', 'd']⟩
    let inner := ['a', '\\', ',', 'c']
    let result := ['}', 'a', '\\', ',', 'c', '{', 'd']
    (chars.length / 2 < 8 ∧ group? true chars = some group ∧ alternative ∈ group.alternatives ∧
        inner ∈ expand true alternative ∧ result ∈ expand true chars) ∧
      expandWithin true 8 chars = .ok (expand true chars) ∧ Yields true chars result ∧
      result.length ≤ chars.length ∧ alternative.length + 2 ≤ chars.length ∧
      (group.before ++ inner ++ group.after).length + 2 ≤ chars.length ∧
      expand true chars = [['}', 'a', '\\', ',', 'b', '{', 'd'], result, ['}', '{', 'd']] := by
  intro chars alternative group inner result
  obtain ⟨within, yields, bound, shorter, -⟩ := (expansion_ends true).2 chars
  obtain ⟨partWithin, -⟩ := (expansion_ends true).2 alternative
  have found : group? true chars = some group := by decide
  have member : alternative ∈ group.alternatives := List.mem_cons_self
  have whole : expand true chars =
      [['}', 'a', '\\', ',', 'b', '{', 'd'], result, ['}', '{', 'd']] :=
    Except.ok.inj (within 8 (by decide)).symm
  have part : expand true alternative = [['a', '\\', ',', 'b'], inner] :=
    Except.ok.inj (partWithin 5 (by decide)).symm
  have expanded : inner ∈ expand true alternative := by
    rw [part]
    decide
  have present : result ∈ expand true chars := by
    rw [whole]
    decide
  obtain ⟨least, combined⟩ := shorter group found alternative member
  exact ⟨⟨by decide, found, member, expanded, present⟩, within 8 (by decide),
    (yields result).mpr present, bound result present, least, combined inner expanded, whole⟩

end Braces

end Glob
