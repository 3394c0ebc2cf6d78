import Glob.Braces.Glyph

/-!
Brace groups: `{a,b}` stands for either of its alternatives. Expanding a text writes it out once for
every choice of alternatives. No result is longer than the text, so expanding a result again ends.
-/

namespace Glob

namespace Braces

open Glyph

/-- A text with a group in it: what stands before, the alternatives, and what follows. -/
structure Group where
  before : List Char
  alternatives : List (List Char)
  after : List Char
  deriving DecidableEq, Repr

/-- The number of open braces after one more glyph. -/
def depthAfter (depth : Nat) : Glyph → Nat
  | .plain '{' => depth + 1
  | .plain '}' => depth - 1
  | _ => depth

def extendFirst (glyph : Glyph) : List (List Glyph) → List (List Glyph)
  | [] => [[glyph]]
  | first :: rest => (glyph :: first) :: rest

/-- The alternatives up to the `}` that closes a group, and what follows it, where `depth` braces
are open inside the group. -/
def splitGroup? : (depth : Nat) → List Glyph → Option (List (List Glyph) × List Glyph)
  | _, [] => none
  | 0, .plain '}' :: rest => some ([[]], rest)
  | 0, .plain ',' :: rest => (splitGroup? 0 rest).map fun (found, after) => ([] :: found, after)
  | depth, glyph :: rest =>
    (splitGroup? (depthAfter depth glyph) rest).map fun (found, after) =>
      (extendFirst glyph found, after)

/-- The first group of a text. There is none if the first opening brace is not closed, whatever
follows it. -/
def group? (escapes : Bool) (chars : List Char) : Option Group :=
  match (ofText escapes chars).dropWhile (· ≠ .plain '{') with
  | [] => none
  | _ :: rest => (splitGroup? 0 rest).map fun (found, after) =>
    { before := text ((ofText escapes chars).takeWhile (· ≠ .plain '{'))
      alternatives := found.map text
      after := text after }

def joined : List (List Glyph) → List Glyph
  | [] => []
  | [last] => last
  | first :: rest => first ++ .plain ',' :: joined rest

theorem joined_extendFirst (glyph : Glyph) {found : List (List Glyph)} (nonempty : found ≠ []) :
    joined (extendFirst glyph found) = glyph :: joined found := by
  match found, nonempty with
  | [_], _ => rfl
  | _ :: _ :: _, _ => rfl

theorem joined_nil_cons {found : List (List Glyph)} (nonempty : found ≠ []) :
    joined ([] :: found) = .plain ',' :: joined found := by
  match found, nonempty with
  | _ :: _, _ => rfl

theorem length_le_joined {found : List (List Glyph)} {alternative : List Glyph}
    (member : alternative ∈ found) : (text alternative).length ≤ (text (joined found)).length := by
  fun_induction joined found with
  | case1 => cases member
  | case2 last => simp_all
  | case3 first rest _ ih =>
    simp only [text_append, text_cons, List.length_append]
    rcases List.mem_cons.1 member with rfl | later
    · omega
    · have := ih later
      omega

theorem eq_of_splitGroup {depth : Nat} {glyphs after : List Glyph} {found : List (List Glyph)}
    (split : splitGroup? depth glyphs = some (found, after)) :
    found ≠ [] ∧ glyphs = joined found ++ .plain '}' :: after := by
  fun_induction splitGroup? depth glyphs generalizing found with
  | case1 => simp at split
  | case2 rest =>
    simp only [Option.some.injEq, Prod.mk.injEq] at split
    obtain ⟨rfl, rfl⟩ := split
    simp [joined]
  | case3 rest ih =>
    obtain ⟨⟨later, _⟩, split', same⟩ := Option.map_eq_some_iff.1 split
    cases same
    obtain ⟨nonempty, rfl⟩ := ih split'
    simp [joined_nil_cons nonempty]
  | case4 depth glyph rest _ _ ih =>
    obtain ⟨⟨later, _⟩, split', same⟩ := Option.map_eq_some_iff.1 split
    cases same
    obtain ⟨nonempty, rfl⟩ := ih split'
    refine ⟨?_, by simp [joined_extendFirst glyph nonempty]⟩
    cases later <;> simp [extendFirst]

theorem dropWhile_opening {glyphs rest : List Glyph} {glyph : Glyph}
    (found : glyphs.dropWhile (· ≠ .plain '{') = glyph :: rest) : glyph = .plain '{' := by
  have head := List.head?_dropWhile_not (· ≠ Glyph.plain '{') glyphs
  rw [found] at head
  simpa using head

theorem eq_of_group {escapes : Bool} {chars : List Char} {group : Group}
    (found : group? escapes chars = some group) :
    ∃ alternatives : List (List Glyph), alternatives ≠ [] ∧
      group.alternatives = alternatives.map text ∧
      chars = group.before ++ '{' :: text (joined alternatives) ++ '}' :: group.after := by
  unfold group? at found
  split at found
  · simp at found
  · rename_i glyph rest opened
    obtain ⟨⟨alternatives, after⟩, split', rfl⟩ := Option.map_eq_some_iff.1 found
    obtain ⟨nonempty, rfl⟩ := eq_of_splitGroup split'
    refine ⟨alternatives, nonempty, rfl, ?_⟩
    have whole := List.takeWhile_append_dropWhile (p := (· ≠ Glyph.plain '{'))
      (l := ofText escapes chars)
    rw [opened, dropWhile_opening opened] at whole
    calc
      chars = text (ofText escapes chars) := (text_ofText escapes chars).symm
      _ = text _ := congrArg text whole.symm
      _ = _ := by simp [text_append, text_cons, Glyph.chars]

theorem length_of_mem_alternatives {escapes : Bool} {chars alternative : List Char} {group : Group}
    (found : group? escapes chars = some group) (member : alternative ∈ group.alternatives) :
    group.before.length + alternative.length + group.after.length + 2 ≤ chars.length := by
  obtain ⟨alternatives, _, same, rfl⟩ := eq_of_group found
  rw [same] at member
  obtain ⟨glyphs, present, rfl⟩ := List.mem_map.1 member
  have := length_le_joined present
  simp only [List.length_append, List.length_cons]
  omega

/-- The expansions of a text, each with the bound that lets it be expanded again. -/
def boundedExpansions (escapes : Bool) (chars : List Char) :
    List { result : List Char // result.length ≤ chars.length } :=
  match found : group? escapes chars with
  | none => [⟨chars, Nat.le_refl _⟩]
  | some group =>
    group.alternatives.attach.flatMap fun ⟨alternative, member⟩ =>
      (boundedExpansions escapes alternative).flatMap fun ⟨inner, short⟩ =>
        (boundedExpansions escapes (group.before ++ inner ++ group.after)).map
          fun ⟨result, bound⟩ => ⟨result, by
            have := length_of_mem_alternatives found member
            simp only [List.length_append] at bound
            omega⟩
termination_by chars.length
decreasing_by
  · have := length_of_mem_alternatives found member
    simp only [List.length_append]
    omega
  · have := length_of_mem_alternatives found member
    omega

/-- The texts that the groups of a text stand for, in the order of their alternatives. -/
def expand (escapes : Bool) (chars : List Char) : List (List Char) :=
  (boundedExpansions escapes chars).map Subtype.val

theorem expand_of_group_eq_none {escapes : Bool} {chars : List Char}
    (found : group? escapes chars = none) : expand escapes chars = [chars] := by
  rw [expand, boundedExpansions]
  split <;> simp_all

theorem expand_of_group_eq_some {escapes : Bool} {chars : List Char} {group : Group}
    (found : group? escapes chars = some group) :
    expand escapes chars = group.alternatives.flatMap fun alternative =>
      (expand escapes alternative).flatMap fun inner =>
        expand escapes (group.before ++ inner ++ group.after) := by
  rw [expand, boundedExpansions]
  split
  · simp_all
  · rename_i same
    cases found.symm.trans same
    simp [expand, List.map_flatMap, Function.comp_def]

end Braces

end Glob
